import TerraIndex.Proofs.Document.Canonical
import TerraIndex.Proofs.Entity.Validation
import TerraIndex.Proofs.Listing.Attempts
import TerraIndex.Proofs.Listing.WrittenBlocks
/-!
# Variables with their validations

A variable that is listed comes from a `variable` block, whose lines are searched for `validation`
blocks. Where these are plain and nothing else looks like one, the row has their texts
(`listed_variables_validate`).
-/

namespace TerraIndex

namespace Hcl

def Part.isValidation (part : Part) : Bool := part.item.isBlock && part.item.name == "validation"

/-- The `validation` blocks of a block. -/
def Part.validations (block : Part) : List Part := block.inside.filter Part.isValidation

/-- The lines of a block. -/
def Part.source (content : List Char) (part : Part) : List Char :=
  match part.item with
  | .block _ _ _ first last =>
    Text.joinNewlines (((Text.splitNewlines content).take last).drop (first - 1))
  | .attribute _ _ => []

/-- The `validation` blocks of a block are plain, and nothing else on its lines begins like one. -/
structure Readable (content : List Char) (block : Part) : Prop where
  plain : ∀ part ∈ block.validations, IsPlain (part.text content)
  only : headings (block.source content) = block.validations.length

/-- The texts of the `validation` blocks of a block, with a blank line between them. -/
def Part.validationText (content : List Char) (block : Part) : String :=
  String.ofList (sepBy ['\n', '\n'] (block.validations.map (Part.text content)))

section Lines

theorem joinNewlines_splitNewlines (cs : List Char) :
    Text.joinNewlines (Text.splitNewlines cs) = cs := by
  have hjoin := Text.joinNewlines_newline (Text.splitNewlines_ne_nil cs)
  rw [Text.endLines_splitNewlines] at hjoin
  exact List.append_cancel_right hjoin

/-- A list that ends in an element goes on behind any other element in it. -/
theorem eq_of_concat_eq_append {α : Type} {xs ys zs : List α} {a b : α} (hne : b ≠ a)
    (h : xs ++ [a] = (ys ++ [b]) ++ zs) : ∃ ws, xs = (ys ++ [b]) ++ ws := by
  rcases List.eq_nil_or_concat' zs with rfl | ⟨ws, c, rfl⟩
  · rw [List.append_nil] at h
    exact absurd (List.cons.inj (List.append_inj' h rfl).2).1.symm hne
  · rw [← List.append_assoc] at h
    exact ⟨ws, (List.append_inj' h rfl).1⟩

/-- The lines that a text takes up in a file, with what stands beside it on the first and the last
of them. -/
theorem Part.source_eq {content before own behind : List Char} {part : Part} {type : String}
    {labels : List String} {body : List Item} {first last : Nat}
    (hitem : part.item = .block type labels body first last)
    (hcontent : content = before ++ (own ++ behind)) (hfirst : first = before.count '\n' + 1)
    (hlast : last = (before ++ own).count '\n' + 1) :
    part.source content = Text.lastLine before ++ (own ++ Text.firstLine behind) := by
  have hlines := Text.splitNewlines_between before own behind
  rw [← hcontent, ← hlast, ← Nat.sub_eq_of_eq_add hfirst] at hlines
  rw [Part.source, hitem]
  simp only [hlines, joinNewlines_splitNewlines]

/-- A block takes up its lines, and the texts of the blocks in it stand there in their order. -/
theorem Part.source_inOrder {content : List Char} {part : Part} {items body : List Item}
    {type : String} {labels : List String} {first last : Nat} {p : Part → Bool}
    (hp : ∀ part, p part = true → part.item.isBlock = true) (hparse : parse content = some items)
    (hpart : part ∈ partsOf content) (hitem : part.item = .block type labels body first last) :
    0 < first ∧ first ≤ last
      ∧ InOrder ((part.inside.filter p).map (Part.text content)) (part.source content) := by
  obtain ⟨⟨name, line, rest, hread⟩, above, habove⟩ := mem_partsOf hpart
  have hlexed := (parse_tokensOf hparse).1
  rw [habove] at hlexed
  obtain ⟨front, b, left, hfront⟩ := hlexed.passed
  obtain ⟨blanks, inner, rest', hspelled, horder⟩ :=
    hread.inside_inOrder hp hitem hfront.rest
  -- the text up to the block, the block, and the text behind it
  have hsplit : content ++ ['\n'] = ((front ++ blanks ++ inner) ++ ['\x7d']) ++ rest' := by
    rw [hfront.split, hspelled.passed.split]
    simp only [List.append_assoc]
  obtain ⟨behind, hbehind⟩ := eq_of_concat_eq_append (by decide) hsplit
  have hcontent : content = (front ++ blanks) ++ ((inner ++ ['\x7d']) ++ behind) := by
    rw [hbehind]
    simp only [List.append_assoc]
  have hfirst : first = (front ++ blanks).count '\n' + 1 := by
    obtain ⟨-, -, rfl, -⟩ := hread.of_block hitem
    have hbegins := hspelled.begins
    rw [hread.front] at hbegins
    rw [List.count_append]
    exact hbegins.trans (by omega)
  have hlast : last = (front ++ blanks ++ (inner ++ ['\x7d'])).count '\n' + 1 := by
    have hends := hspelled.ends
    have hbrace : List.count '\n' ['\x7d'] = 0 := by decide
    simp only [List.count_append, hbrace] at hends ⊢
    omega
  have htexts : (part.inside.filter p).map (Part.text content)
      = (part.inside.filter p).map (Part.textIn (places b left)) := by
    obtain ⟨passed, hpassed⟩ := hfront.places
    have htext : Part.text content = Part.textIn (passed ++ places b left) := by
      funext part
      rw [Part.text, hpassed]
    rw [htext, hread.textIn_inside passed hitem hfront.rest.length_places]
  refine ⟨by omega, ?_, ?_⟩
  · have hcount : List.count '\n' (front ++ blanks ++ (inner ++ ['\x7d'])) = _ := List.count_append
    omega
  · rw [htexts, Part.source_eq hitem hcontent hfirst hlast, List.append_assoc inner]
    exact (horder.before _).behind _

end Lines

theorem Part.isBlock_of_isValidation {part : Part} (h : part.isValidation = true) :
    part.item.isBlock = true :=
  (Bool.and_eq_true_iff.mp h).1

theorem Readable.validationText_source {content : List Char} {block : Part} {items body : List Item}
    {type : String} {labels : List String} {first last : Nat} (h : Readable content block)
    (hparse : parse content = some items) (hblock : block ∈ partsOf content)
    (hitem : block.item = .block type labels body first last) :
    (validationText? (block.source content)).getD "" = block.validationText content := by
  obtain ⟨-, -, horder⟩ := Part.source_inOrder
    (fun _ => Part.isBlock_of_isValidation) hparse hblock hitem
  have hplain : ∀ text ∈ block.validations.map (Part.text content), IsPlain text := by
    intro text htext
    obtain ⟨part, hpart, rfl⟩ := List.mem_map.mp htext
    exact h.plain part hpart
  have honly : headings (block.source content)
      = (block.validations.map (Part.text content)).length := by
    rw [List.length_map]
    exact h.only
  rw [validationText?, validationBlocks_inOrder horder hplain honly (Nat.le_refl _),
    Part.validationText, Part.validations]
  split
  · rename_i hnil
    rw [hnil]
    rfl
  · rfl

theorem Readable.validationText_eq_empty {content : List Char} {block : Part}
    (h : Readable content block) : block.validationText content = "" ↔ block.validations = [] := by
  constructor
  · intro hempty
    by_contra hne
    obtain ⟨part, parts, hparts⟩ := List.exists_cons_of_ne_nil hne
    have hplain := h.plain part (by rw [hparts]; exact List.mem_cons_self ..)
    obtain ⟨c, cs, htext⟩ := hplain.exists_cons
    rw [Part.validationText, hparts, List.map_cons, htext, String.ofList_eq_empty_iff,
      sepBy_cons] at hempty
    cases hempty
  · intro hnil
    rw [Part.validationText, hnil]
    rfl

end Hcl

open Hcl

/-- What an attempt on a variable block of a configuration gives: a row, or the error of the first
argument of the block that is refused. -/
inductive Validates (content : List Char) (tree : Body) (part : Part) : Attempt → Prop
  | row {block : ConfigBlock} {extraction : Extraction} {row : Variable}
    (hstands : Stands (.ofContent content tree) "variable" part.item block)
    (hlabels : part.item.labels = [row.name])
    (hextract : extract "variable" row.name block.body = .ok extraction)
    (hvalidation : Readable content part → row.validation = part.validationText content
      ∧ (row.validation = "" ↔ part.validations = [])) :
    Validates content tree part (.ok (.variable row))
  | refused {block : ConfigBlock} {name : String} {e : BuildError}
    (hstands : Stands (.ofContent content tree) "variable" part.item block)
    (hlabels : part.item.labels = [name])
    (hextract : extract "variable" name block.body = .error e) :
    Validates content tree part (.error e)

/-- A variable is built where its arguments are extracted, with the validations on its lines. -/
theorem Variable.ofBlock_extracted (place : Located) {name : String} {body : Body}
    {extraction : Extraction} (h : extract "variable" name body = .ok extraction) :
    ∃ row, Variable.ofBlock place name body true = .ok row ∧ row.name = name
      ∧ row.validation = (validationText? place.span.source.toList).getD "" := by
  rw [Variable.ofBlock, h]
  exact ⟨_, rfl, rfl, rfl⟩

theorem Variable.ofBlock_refused {place : Located} {name : String} {body : Body} {e : BuildError}
    (h : extract "variable" name body = .error e) :
    Variable.ofBlock place name body true = .error e := by
  rw [Variable.ofBlock, h]
  rfl

namespace SourceFile

variable {file : SourceFile} {content : List Char}

/-- The lines of a listed variable are those of its block. -/
theorem source_blockPlace {items : List Item} {tree : Body} {part : Part} {block : ConfigBlock}
    (hparse : parse content = some items) (hpart : part ∈ partsOf content)
    (htext : file.configText = .ofContent content tree)
    (hstands : Stands (.ofContent content tree) "variable" part.item block) :
    (file.blockPlace "variable" block).span.source.toList = part.source content := by
  generalize hitem : part.item = item at hstands
  cases hstands with
  | block hinner hnodes hlocate =>
    obtain ⟨hpos, hle, -⟩ := Part.source_inOrder
      (fun _ => Part.isBlock_of_isValidation) hparse hpart hitem
    rw [blockPlace, htext, hlocate, spanOf_noted _ hnodes hpos hle, Part.source, hitem]
    exact String.toList_ofList

theorem Tries.validates {items : List Item} {tree : Body} {part : Part} {block : ConfigBlock}
    {attempt : Attempt} (hparse : parse content = some items) (hpart : part ∈ partsOf content)
    (htext : file.configText = .ofContent content tree)
    (hstands : Stands (.ofContent content tree) "variable" part.item block)
    (htries : file.Tries .variable (.block block) attempt) :
    Validates content tree part attempt := by
  cases htries with
  | @«variable» block name hlabels =>
    have hsource := source_blockPlace hparse hpart htext hstands
    obtain ⟨body, first, last, hitem⟩ := hstands.item
    have hnames : part.item.labels = [name] := by rw [hitem, ← hlabels]; rfl
    cases hextract : extract "variable" name block.body with
    | error e =>
      rw [Variable.ofBlock_refused hextract]
      exact .refused hstands hnames hextract
    | ok extraction =>
      obtain ⟨row, hrow, rfl, hvalidation⟩ :=
        Variable.ofBlock_extracted (file.blockPlace "variable" block) hextract
      rw [hrow]
      refine .row hstands hnames hextract fun hreadable => ?_
      rw [hsource, hreadable.validationText_source hparse hpart hitem] at hvalidation
      exact ⟨hvalidation, hvalidation ▸ hreadable.validationText_eq_empty⟩

end SourceFile

/-- Every `variable` block of a configuration is tried, and where its validations are plain the row
has their texts. The parser has to read the text as the configuration language says. -/
theorem listed_variables_validate {store : FileStore} {item : FileItem} {text : List Char}
    {tree : Body} (hholds : item.Holds store text) (hconfig : item.classify text = .config)
    (hfollows : store.parser.Follows text)
    (hparse : parseConfig store.parser item.path text = .ok tree)
    (hkind : OfKind "variable" 1 ((partsOf text).map Part.item)) :
    ∃ attempts, list .variable store item = Listing.ofAttempts .variable item.path attempts
      ∧ List.Forall₂ (Validates text tree)
        ((partsOf text).filter fun part => part.item.isListed "variable") attempts := by
  obtain ⟨file, hfile⟩ : ∃ file : SourceFile,
      file = ⟨item.path, String.ofList text, .config, tree⟩ := ⟨_, rfl⟩
  have htext : file.configText = .ofContent text tree := by
    rw [SourceFile.configText, hfile, String.toList_ofList]
  have hkindOf : file.kind = .config := by rw [hfile]
  obtain ⟨attempts, htries, hlisting⟩ := SourceFile.ofSteps_config .variable hkindOf (by simp)
  refine ⟨attempts, ?_, ?_⟩
  · have hpath : file.path = item.path := by rw [hfile]
    rw [list_config hholds hconfig hparse, ← hfile, ← hpath, hlisting]
  · obtain ⟨items, -, hitems, -, -⟩ := parseConfig_ok hfollows hparse
    have hparts := configBlocks_parts hfollows hparse (by decide) hkind
    have htree : file.tree = tree := by rw [hfile]
    rw [SourceFile.configSites, htree, List.forall₂_map_left_iff] at htries
    have hmem := (List.forall₂_and_left _ _).mpr
      ⟨fun part hpart => List.mem_of_mem_filter hpart, hparts⟩
    exact forall₂_comp (fun part block attempt hpart htry =>
      htry.validates hitems hpart.1 htext hpart.2) hmem htries

namespace CheckedName

def text : List Char := ("variable \"env\" \x7b\n  validation \x7b\n    condition = a\n  \x7d\n"
  ++ "  validation \x7b\n    condition = b\n  \x7d\n\x7d\n").toList

def validation (fuel : Nat) (condition : String) (line : Nat) (behind : Tokens) : Part :=
  ⟨.block "validation" [] [.attribute "condition" (.word condition)] line (line + 2), fuel,
    ⟨.word "validation", line⟩ :: ⟨.mark .openBrace, line⟩ :: ⟨.newline, line⟩
      :: ⟨.word "condition", line + 1⟩ :: ⟨.mark .assign, line + 1⟩ :: ⟨.word condition, line + 1⟩
      :: ⟨.newline, line + 1⟩ :: ⟨.mark .closeBrace, line + 2⟩ :: behind, behind⟩

def second : Part := validation 204 "b" 5
  [⟨.newline, 7⟩, ⟨.mark .closeBrace, 8⟩, ⟨.newline, 8⟩, ⟨.newline, 9⟩]

def first : Part := validation 205 "a" 2 (⟨.newline, 4⟩ :: second.front)

def env : Part := ⟨.block "variable" ["env"] [first.item, second.item] 1 8, 207,
  ⟨.word "variable", 1⟩ :: ⟨.quoted "env".toList, 1⟩ :: ⟨.mark .openBrace, 1⟩ :: ⟨.newline, 1⟩
    :: first.front, [⟨.newline, 8⟩, ⟨.newline, 9⟩]⟩

theorem partsOf_text : partsOf text = [env] := by cbv

theorem validations_env : env.validations = [first, second] := by cbv

def validationText (condition : Char) : List Char :=
  validationWord ++ ([' '] ++ '\x7b' :: ("\n    condition = ".toList ++ condition :: "\n  ".toList
    ++ ['\x7d']))

theorem text_first : first.text text = validationText 'a' := by cbv

theorem text_second : second.text text = validationText 'b' := by cbv

theorem readable_env : Readable text env where
  plain := by
    rw [validations_env]
    intro part hpart
    rcases List.mem_pair.mp hpart with rfl | rfl
    · rw [text_first]
      exact .block (by decide) (by decide) (by decide)
    · rw [text_second]
      exact .block (by decide) (by decide) (by decide)
  only := by
    rw [validations_env]
    cbv

def store : FileStore := .ofText "main.tf" text

def tree : Body :=
  let lines (first last : Int) := [(startKey, .scalar (.int first)), (endKey, .scalar (.int last))]
  [("variable", .list [.map [("env", .map (("validation", .list [
    .map (("condition", .scalar (.text "$\x7ba\x7d")) :: lines 2 4),
    .map (("condition", .scalar (.text "$\x7bb\x7d")) :: lines 5 7)]) :: lines 1 8))]])]

theorem parseConfig_text : parseConfig store.parser "main.tf" text = .ok tree := by cbv

theorem classify : (FileItem.ofPath "main.tf").classify text = .config :=
  classify_v (text.drop 1)

theorem holds : (FileItem.ofPath "main.tf").Holds store text :=
  FileItem.holds_config (FileItem.reads_ofText (by rfl) (by decide)) rfl classify (by decide)
    (by cbv)

theorem ofKind : OfKind "variable" 1 ((partsOf text).map Part.item) := by
  rw [partsOf_text]
  intro item hitem _
  obtain rfl := List.mem_singleton.mp hitem
  exact ⟨rfl, rfl, rfl⟩

end CheckedName

open CheckedName in
theorem listed_variables_validate_checkedName :
    (FileItem.ofPath "main.tf").Holds store text
      ∧ (FileItem.ofPath "main.tf").classify text = .config
      ∧ store.parser.Follows text
      ∧ parseConfig store.parser "main.tf" text = .ok tree
      ∧ OfKind "variable" 1 ((partsOf text).map Part.item)
      ∧ partsOf text = [env] ∧ Readable text env
      ∧ ∃ attempts, list .variable store (.ofPath "main.tf")
          = Listing.ofAttempts .variable "main.tf" attempts
        ∧ List.Forall₂ (Validates text tree)
          ((partsOf text).filter fun part => part.item.isListed "variable") attempts :=
  have hfollows : store.parser.Follows text := FileStore.follows_ofText "main.tf" text text
  ⟨holds, classify, hfollows, parseConfig_text, ofKind, partsOf_text, readable_env,
    listed_variables_validate holds classify hfollows parseConfig_text ofKind⟩

namespace InterpolatedMessage

/-- The template in the message has the first closing brace of the block. -/
def text : List Char := ("variable \"env\" \x7b\n  validation \x7b\n"
  ++ "    error_message = \"no $\x7ba\x7d\"\n  \x7d\n\x7d\n").toList

def store : FileStore := .ofText "main.tf" text

def body : Body := [("error_message", .scalar (.text "no $\x7ba\x7d")),
  (startKey, .scalar (.int 2)), (endKey, .scalar (.int 4))]

def tree : Body := [("variable", .list [.map [("env", .map [("validation", .list [.map body]),
  (startKey, .scalar (.int 1)), (endKey, .scalar (.int 5))])]])]

def row : Variable where
  place := ⟨"main.tf", ⟨1, 5, "variable \"env\" \x7b\n  validation \x7b\n    "
    ++ "error_message = \"no $\x7ba\x7d\"\n  \x7d\n\x7d"⟩⟩
  name := "env"
  type := none
  defaultValue := none
  value := none
  description := none
  sensitive := false
  nullable := none
  validation := "validation \x7b\n    error_message = \"no $\x7ba\x7d"
  arguments := [("validation", .list [.map [("error_message", .text "no $\x7ba\x7d")]])]

theorem parseConfig_text : parseConfig store.parser "main.tf" text = .ok tree := by cbv

theorem classify : (FileItem.ofPath "main.tf").classify text = .config :=
  classify_v (text.drop 1)

theorem holds : (FileItem.ofPath "main.tf").Holds store text :=
  FileItem.holds_config (FileItem.reads_ofText (by rfl) (by decide)) rfl classify (by decide)
    (by cbv)

set_option maxRecDepth 20000 in
theorem entities_text :
    (list .variable store (.ofPath "main.tf")).entities = [.variable row] := by
  rw [list_config holds classify parseConfig_text]
  rfl

theorem validationText_text : (partsOf text).map (Part.validationText text)
    = ["validation \x7b\n    error_message = \"no $\x7ba\x7d\"\n  \x7d"] := by cbv

end InterpolatedMessage

open InterpolatedMessage in
/-- Of a block with a brace in it, the row has the text up to that brace. -/
theorem listed_variable_not_validated :
    (FileItem.ofPath "main.tf").Holds store text
      ∧ (FileItem.ofPath "main.tf").classify text = .config
      ∧ store.parser.Follows text
      ∧ parseConfig store.parser "main.tf" text = .ok tree
      ∧ (list .variable store (.ofPath "main.tf")).entities = [.variable row]
      ∧ (partsOf text).map (fun part => part.item.labels) = [[row.name]]
      ∧ (partsOf text).map (Part.validationText text) ≠ [row.validation] := by
  have hfollows : store.parser.Follows text := FileStore.follows_ofText "main.tf" text text
  refine ⟨holds, classify, hfollows, parseConfig_text, entities_text, by cbv, ?_⟩
  rw [validationText_text]
  simp [row]

end TerraIndex
