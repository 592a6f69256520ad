import TerraIndex.Proofs.Listing.Attempts
import TerraIndex.Proofs.Listing.WrittenBlocks
import TerraIndex.Proofs.Source.AttributeSource
/-!
# Local values with their sources

A local value that is listed comes from an attribute of a `locals` block. Where that attribute is
laid out, the lines of the row define the value again (`listed_local_redefined`).
-/

namespace TerraIndex

open Hcl

/-- Between the lines of a `locals` block of its own, the source of a row defines the only value, of
the same name and with the same text. -/
def LocalValue.Redefined (row : LocalValue) (parser : ConfigParser) : Prop :=
  ∀ path, ∃ tree block node,
    parseConfig parser path (wrapped row.place.span.source.toList) = .ok tree
      ∧ configBlocks tree "locals" 0 = [block] ∧ block.body = [(row.name, node)]
      ∧ node.canonical = .ok row.value

namespace Hcl

/-- How the `locals` blocks of a configuration are written for the values of a name to be found:
whatever is called so, up to case, is a `locals` block without labels, and what has the name in such
a block is an attribute that is laid out. -/
structure LocalsLaidOut (content : List Char) (name : String) : Prop where
  blocks : OfKind "locals" 0 ((partsOf content).map Part.item)
  laidOut : ∀ block ∈ partsOf content, block.item.name = "locals" → ∀ part ∈ block.inside,
    part.item.name = name → LaidOut content block part

section Attribute

/-- An entry of a body without reserved keys is read from the items of its block. -/
theorem mem_sanitize_noted {inner : List (String × Raw)} {first last : Nat} {nodes : Body}
    {name : String} {value : Node} (hnodes : Node.ofRawEntries (noted inner first last) = .ok nodes)
    (h : (name, value) ∈ Body.sanitize nodes) : isReserved name = false
      ∧ ∃ raw node, (name, raw) ∈ inner ∧ Node.ofRaw raw = .ok node ∧ value = node.sanitize := by
  rw [sanitize_eq] at h
  obtain ⟨⟨key, node⟩, hentry, heq⟩ := List.mem_map.mp h
  obtain ⟨rfl, rfl⟩ := Prod.mk.inj heq
  obtain ⟨hmem, hreserved⟩ := List.mem_filter.mp hentry
  have hname : isReserved key = false := by simpa using hreserved
  obtain ⟨raw, hraw, hnode⟩ := mem_ofRawEntries hnodes hmem
  refine ⟨hname, raw, node, ?_, hnode, rfl⟩
  rcases mem_insertEntry hraw with hraw | heq
  · rcases mem_insertEntry hraw with hraw | heq
    · exact hraw
    · obtain ⟨rfl, -⟩ := Prod.mk.inj heq
      exact absurd hname (by decide)
  · obtain ⟨rfl, -⟩ := Prod.mk.inj heq
    exact absurd hname (by decide)

section Attribute

variable {content : List Char} {block : Part} {kind name : String} {labels : List String}
  {items body : List Item} {first last : Nat} {inner : List (String × Raw)} {raw : Raw}

/-- An entry of a block is the value of its only attribute of that name, where no part of that name
is a block. -/
theorem firstOf_entry (hparse : parse content = some items) (hblock : block ∈ partsOf content)
    (hitem : block.item = .block kind labels body first last)
    (hinner : Item.addItems [] [] body = some inner) (hentry : (name, raw) ∈ inner)
    (hparts : ∀ part ∈ block.inside, part.item.name = name → part.item.isBlock = false) :
    ∃ part ∈ block.inside, FirstOf content block part last ∧ ∃ value v,
      part.item = .attribute name value ∧ value.value = some v ∧ raw = v.embedded.toRaw := by
  obtain ⟨⟨type, line, rest, hread⟩, above, habove⟩ := mem_partsOf hblock
  have hbody := hread.items hitem
  obtain ⟨rfl, -⟩ := hread.of_block hitem
  rcases mem_addItems hinner hentry with
    hnone | ⟨value, v, hvalue, hv, hraw⟩ | ⟨item, hmem, hname, hisBlock⟩
  · cases hnone
  · rw [← hbody] at hvalue
    obtain ⟨part, hpart, hattribute⟩ := List.mem_map.mp hvalue
    obtain ⟨before, after, hinside⟩ := List.append_of_mem hpart
    have hitems : body = before.map Part.item ++ .attribute name value :: after.map Part.item := by
      rw [← hbody, hinside, List.map_append, List.map_cons, hattribute]
    have hfirst := addItems_first hinner hitems
    refine ⟨part, hpart, ⟨(parse_tokensOf hparse).1, ⟨above, habove⟩, ?_, Part.inside_isRead hpart,
      before, after, hinside, ?_⟩, value, v, hattribute, hv, hraw⟩
    · exact ⟨kind, line, rest, labels, body, first, hread, hitem⟩
    · rwa [hattribute]
  · rw [← hbody] at hmem
    obtain ⟨part, hpart, rfl⟩ := List.mem_map.mp hmem
    exact absurd hisBlock (by rw [hparts part hpart hname]; exact Bool.false_ne_true)

end Attribute

end Attribute

/-- A `locals` block with one attribute is listed with the value of the attribute. -/
theorem configBlocks_wrapped {parser : ConfigParser} {source : List Char} {path name : String}
    {value : Expr} {v : Value} {node : Node} {last : Nat} (hfollows : parser.Follows (wrapped source))
    (hparse : parse (wrapped source) = some [.block "locals" [] [.attribute name value] 1 last])
    (hvalue : value.value = some v) (hnode : Node.ofRaw v.embedded.toRaw = .ok node)
    (hname : isReserved name = false) :
    ∃ tree, parseConfig parser path (wrapped source) = .ok tree
      ∧ configBlocks tree "locals" 0 = [⟨[], [(name, node.sanitize)], 0⟩] := by
  have hstart : name ≠ startKey := by
    rintro rfl
    exact absurd hname (by decide)
  have hend : name ≠ endKey := by
    rintro rfl
    exact absurd hname (by decide)
  have hroot : Item.addItems [] [] [.block "locals" [] [.attribute name value] 1 last]
      = some [("locals", .list [.map (noted [(name, v.embedded.toRaw)] 1 last)])] := by
    simp [Item.addItems, Item.addItem, hvalue, hasEntry, entryAt?, appendEntry, insertEntry, noted,
      nestLabels]
  have hnoted : noted [(name, v.embedded.toRaw)] 1 last
      = [(name, v.embedded.toRaw), (startKey, .int 1), (endKey, .int last)] := by
    rw [noted, insertEntry, if_neg hstart, insertEntry, insertEntry, if_neg hend, insertEntry,
      if_neg (by decide), insertEntry]
    rfl
  have hentries : Node.ofRawEntries (noted [(name, v.embedded.toRaw)] 1 last)
      = .ok [(name, node), (startKey, .scalar (.int 1)), (endKey, .scalar (.int last))] := by
    rw [hnoted]
    simp only [Node.ofRawEntries, hnode, Node.ofRaw]
    rfl
  refine ⟨[("locals", .list [.map [(name, node), (startKey, .scalar (.int 1)),
    (endKey, .scalar (.int last))]])], ?_, ?_⟩
  · rw [parseConfig, hfollows, decode, hparse]
    simp only [Option.bind_eq_bind, Option.bind_some, hroot, Option.pure_def, documentOf,
      Node.ofRaw, Node.ofRawEntries, Node.ofRawList, hentries]
    rfl
  · have hbody : Body.sanitize [(name, node), (startKey, .scalar (.int 1)),
        (endKey, .scalar (.int last))] = [(name, node.sanitize)] := by
      have hlines : isReserved startKey = true ∧ isReserved endKey = true := by decide
      rw [sanitize_eq]
      simp [hname, hlines]
    rw [← hbody]
    rfl

end Hcl

section Rows

/-- A row comes from a step on an entry of a `locals` block. -/
theorem mem_localSteps {store : FileStore} {item : FileItem} {text : List Char} {row : LocalValue}
    (hreads : item.Reads store text) (hconfig : item.classify text = .config)
    (hrow : .localValue row ∈ (list .localValue store item).entities) :
    ∃ tree, parseConfig store.parser item.path text = .ok tree
      ∧ ∃ block ∈ configBlocks tree "locals" 0, ∃ value span, (row.name, value) ∈ block.body
        ∧ (ConfigText.ofContent text tree).locateAttribute
          ((ConfigText.ofContent text tree).locate "locals" [] block.occurrence) row.name = .ok span
        ∧ row.place = ⟨item.path, span⟩ ∧ value.canonical = .ok row.value := by
  obtain ⟨file, hpath, hcontent, hkind, hparse, hentity⟩ := mem_list hreads hrow
  rw [hconfig] at hkind
  rw [hkind, parseAs, hpath] at hparse
  refine ⟨file.tree, hparse, ?_⟩
  have hstep := mem_ofSteps hentity
  simp only [SourceFile.steps, hkind, if_true] at hstep
  obtain ⟨block, hblock, hstep⟩ := List.mem_flatMap.mp hstep
  obtain ⟨⟨name, value⟩, hentry, hstep⟩ := List.mem_map.mp hstep
  have htext : file.configText = .ofContent text file.tree := by
    rw [SourceFile.configText, hcontent, String.toList_ofList]
  rw [htext, hpath] at hstep
  obtain ⟨span, hspan, hstep⟩ := bind_ok hstep
  obtain ⟨local', hlocal, heq⟩ := map_ok (Except.ok.inj hstep)
  obtain rfl := Entity.localValue.inj heq
  obtain ⟨text', htext', heq'⟩ := bind_ok hlocal
  obtain rfl := Except.ok.inj heq'
  refine ⟨block, hblock, value, span, hentry, mapError_ok hspan, rfl, ?_⟩
  cases hcanonical : value.canonical with
  | error e =>
    rw [hcanonical] at htext'
    cases htext'
  | ok text'' =>
    rw [hcanonical] at htext'
    exact congrArg _ (Except.ok.inj htext')

namespace Hcl

/-- The attribute that an entry of a `locals` block comes from. -/
structure Defines (content : List Char) (block part : Part) (last : Nat) (name : String)
    (value : Node) : Prop where
  first : FirstOf content block part last
  laidOut : LaidOut content block part
  listed : isReserved name = false
  value : ∃ e v node, part.item = .attribute name e ∧ e.value = some v
    ∧ Node.ofRaw v.embedded.toRaw = .ok node ∧ value = node.sanitize

/-- The lines that the parser notes for a block are those of its tokens, and an attribute of the
block that is laid out is found between them. -/
theorem FirstOf.locateAttribute_noted {content : List Char} {block part : Part}
    {kind : String} {labels : List String} {body : List Item} {first last : Nat}
    {inner : List (String × Raw)} {nodes : Body} (h : FirstOf content block part last)
    (hlaid : LaidOut content block part) (hblock : block ∈ partsOf content)
    (hitem : block.item = .block kind labels body first last)
    (hnodes : Node.ofRawEntries (noted inner first last) = .ok nodes) (tree : Body) :
    (ConfigText.ofContent content tree).locateAttribute
        ((ConfigText.ofContent content tree).spanOf nodes) part.item.name
      = .ok ⟨lineOf part.front, lineOf part.left, (ConfigText.ofContent content tree).sourceText
          (lineOf part.front) (lineOf part.left)⟩ := by
  have hline : lineOf block.front = first := by
    obtain ⟨⟨_, _, _, hread⟩, -⟩ := mem_partsOf hblock
    obtain ⟨-, -, rfl, -⟩ := hread.of_block hitem
    rw [hread.front]
    rfl
  obtain ⟨hpos, hle, hlast, -⟩ := h.lines hlaid
  have hbelow := hlaid.below
  have hspan := spanOf_noted (.ofContent content tree) hnodes (by omega) (by omega)
  rw [hspan, ← hline]
  exact h.locateAttribute_eq hlaid rfl rfl tree

/-- An entry of a `locals` block is defined by an attribute, which is found. -/
theorem LocalsLaidOut.defines {parser : ConfigParser} {content : List Char} {path name : String}
    {tree : Body} {block : ConfigBlock} {value : Node} (hlaid : LocalsLaidOut content name)
    (hfollows : parser.Follows content) (hparse : parseConfig parser path content = .ok tree)
    (hblock : block ∈ configBlocks tree "locals" 0) (hentry : (name, value) ∈ block.body) :
    ∃ outer part last, Defines content outer part last name value
      ∧ (ConfigText.ofContent content tree).locateAttribute
          ((ConfigText.ofContent content tree).locate "locals" [] block.occurrence) name
        = .ok ⟨lineOf part.front, lineOf part.left, (ConfigText.ofContent content tree).sourceText
            (lineOf part.front) (lineOf part.left)⟩ := by
  obtain ⟨outer, houter, hstand⟩ :=
    forall₂_mem_right (configBlocks_parts hfollows hparse (by decide) hlaid.blocks) hblock
  obtain ⟨houter, -⟩ := List.mem_filter.mp houter
  obtain ⟨items, root, hitems, -, -⟩ := parseConfig_ok hfollows hparse
  generalize hitem : outer.item = item at hstand
  cases hstand with
  | @block labels body first last occurrence inner nodes hinner hnodes hlocate =>
    obtain ⟨hname, raw, node, hraw, hnode, hvalue⟩ := mem_sanitize_noted hnodes hentry
    have hinside : ∀ part ∈ outer.inside, part.item.name = name → LaidOut content outer part :=
      hlaid.laidOut outer houter (by rw [hitem]; rfl)
    obtain ⟨part, hpart, hfirst, e, v, hassigns, hv, rfl⟩ :=
      firstOf_entry hitems houter hitem hinner hraw fun part hpart hpartName => by
        obtain ⟨_, hattribute⟩ := (hinside part hpart hpartName).isAttribute
        rw [hattribute]
        rfl
    have hpartName : part.item.name = name := by
      rw [hassigns]
      rfl
    have hlaidOut := hinside part hpart hpartName
    refine ⟨outer, part, last,
      ⟨hfirst, hlaidOut, hname, e, v, node, hassigns, hv, hnode, hvalue⟩, ?_⟩
    have hlabels : labels = [] := by
      have hkind := hlaid.blocks _ (List.mem_map_of_mem houter)
      rw [hitem] at hkind
      exact List.length_eq_zero_iff.mp (hkind (beq_self_eq_true _)).2.2
    rw [hlabels] at hlocate
    rw [hlocate, ← hpartName]
    exact hfirst.locateAttribute_noted hlaidOut houter hitem hnodes tree

end Hcl

/-- Of a value that is laid out, the row has a span, and its source defines it again. The parser has
to read the text, and the source in a block of its own, as the configuration language says. -/
theorem listed_local_redefined {store : FileStore} {item : FileItem} {text : List Char}
    {row : LocalValue} (hreads : item.Reads store text) (hconfig : item.classify text = .config)
    (hrow : .localValue row ∈ (list .localValue store item).entities)
    (hlaid : LocalsLaidOut text row.name) (hfollows : store.parser.Follows text)
    (hsource : store.parser.Follows (wrapped row.place.span.source.toList)) :
    row.place.span.found = true ∧ row.Redefined store.parser := by
  obtain ⟨tree, hparse, block, hblock, value, span, hentry, hspan, hplace, hvalue⟩ :=
    mem_localSteps hreads hconfig hrow
  obtain ⟨outer, part, last, hdefines, hlocated⟩ := hlaid.defines hfollows hparse hblock hentry
  obtain ⟨hfirst, hlaidOut, hname, e, v, node, hassigns, hv, hnode, rfl⟩ := hdefines
  obtain rfl := Except.ok.inj (hspan.symm.trans hlocated)
  refine ⟨?_, fun path => ?_⟩
  · have hbelow := hlaidOut.below
    rw [hplace, Span.found, decide_eq_true_eq]
    simp only
    omega
  · obtain ⟨last', hwrapped⟩ := hfirst.parse_wrapped hlaidOut hassigns tree
    rw [hplace] at hsource ⊢
    obtain ⟨own, hown, hblocks⟩ := configBlocks_wrapped hsource hwrapped hv hnode hname
    exact ⟨own, _, _, hown, hblocks, rfl, hvalue⟩

namespace ListOfPorts

def text : List Char := "locals \x7b\n  ports = [\n    a,\n  ]\n\x7d\n".toList

def closing : Tokens := [⟨.newline, 4⟩, ⟨.mark .closeBrace, 5⟩, ⟨.newline, 5⟩, ⟨.newline, 6⟩]

def value : Tokens := [⟨.mark .openBracket, 2⟩, ⟨.newline, 2⟩, ⟨.word "a", 3⟩, ⟨.mark .comma, 3⟩,
  ⟨.newline, 3⟩, ⟨.mark .closeBracket, 4⟩]

def ports : Part := ⟨.attribute "ports" (.tuple [.word "a"]), 125,
  ⟨.word "ports", 2⟩ :: ⟨.mark .assign, 2⟩ :: value ++ closing, closing⟩

def outer : Part := ⟨.block "locals" [] [.attribute "ports" (.tuple [.word "a"])] 1 5, 127,
  ⟨.word "locals", 1⟩ :: ⟨.mark .openBrace, 1⟩ :: ⟨.newline, 1⟩ :: ports.front,
  [⟨.newline, 5⟩, ⟨.newline, 6⟩]⟩

theorem tokensOf_text : tokensOf text = outer.front := by cbv

theorem partsOf_text : partsOf text = [outer] := by cbv

theorem inside_outer : outer.inside = [ports] := by cbv

def store : FileStore := .ofText "main.tf" text

def source : String := "  ports = [\n    a,\n  ]"

def row : LocalValue := ⟨⟨"main.tf", ⟨2, 4, source⟩⟩, "ports", "[\"$\x7ba\x7d\"]"⟩

def body : Body := [("ports", .list [.scalar (.text "$\x7ba\x7d")]),
    (Hcl.startKey, .scalar (.int 1)), (Hcl.endKey, .scalar (.int 5))]

def tree : Body := [("locals", .list [.map body])]

theorem parseConfig_text : parseConfig store.parser "main.tf" text = .ok tree := by cbv

theorem classify : (FileItem.ofPath "main.tf").classify text = .config :=
  classify_l (text.drop 1)

theorem reads : (FileItem.ofPath "main.tf").Reads store text :=
  FileItem.reads_ofText (by rfl) (by decide)

theorem holds : (FileItem.ofPath "main.tf").Holds store text :=
  FileItem.holds_config reads rfl classify (by decide) (by cbv)

theorem entities_text :
    (list .localValue store (.ofPath "main.tf")).entities = [.localValue row] := by
  rw [list_config holds classify parseConfig_text]
  cbv

theorem laidOut_ports : LaidOut text outer ports where
  isAttribute := ⟨_, rfl⟩
  blockBegins := by rw [tokensOf_text]
  below := by decide
  begins := by rw [tokensOf_text]; rfl
  newline := by rw [tokensOf_text]; exact List.mem_of_getElem? (i := 2) rfl
  named := by cbv
  ends := by rfl
  inside := by
    intro k hk hk'
    have hline : lineOf ports.front = 2 := rfl
    have hleft : lineOf ports.left = 4 := rfl
    rcases (by omega : k = 2 ∨ k = 3) with rfl | rfl
    · decide
    · decide
  counted := by
    intro k hk hk'
    have hline : lineOf outer.front = 1 := rfl
    have hleft : lineOf ports.left = 4 := rfl
    rw [Counted, tokensOf_text]
    rcases (by omega : k = 1 ∨ k = 2 ∨ k = 3 ∨ k = 4) with rfl | rfl | rfl | rfl
    · cbv
    · cbv
    · cbv
    · cbv
  alone := by
    intro k hk hk'
    have hline : lineOf ports.front = 2 := rfl
    have hline' : lineOf outer.front = 1 := rfl
    omega

theorem localsLaidOut : LocalsLaidOut text row.name := by
  constructor
  · rw [partsOf_text]
    intro item hitem _
    obtain rfl := List.mem_singleton.mp hitem
    exact ⟨rfl, rfl, rfl⟩
  · rw [partsOf_text]
    intro block hblock hname part hpart hpartName
    obtain rfl := List.mem_singleton.mp hblock
    rw [inside_outer] at hpart
    obtain rfl := List.mem_singleton.mp hpart
    exact laidOut_ports

end ListOfPorts

open ListOfPorts in
theorem listed_local_redefined_ports :
    (FileItem.ofPath "main.tf").Reads store text
      ∧ (FileItem.ofPath "main.tf").classify text = .config
      ∧ .localValue row ∈ (list .localValue store (.ofPath "main.tf")).entities
      ∧ LocalsLaidOut text row.name
      ∧ store.parser.Follows text
      ∧ store.parser.Follows (wrapped row.place.span.source.toList)
      ∧ row.place.span.found = true ∧ row.Redefined store.parser := by
  have hmem : .localValue row ∈ (list .localValue store (.ofPath "main.tf")).entities := by
    rw [entities_text]
    exact List.mem_singleton_self _
  have hfollows : ∀ content, store.parser.Follows content := FileStore.follows_ofText "main.tf" text
  exact ⟨reads, classify, hmem, localsLaidOut, hfollows text, hfollows _,
    listed_local_redefined reads classify hmem localsLaidOut (hfollows text) (hfollows _)⟩

namespace MergedTags

/-- The value spans lines that end inside of round brackets, which are not counted. -/
def text : List Char :=
  "locals \x7b\n  tags = merge(\n    a,\n    b\n  )\n\x7d\n".toList

def store : FileStore := .ofText "main.tf" text

def row : LocalValue :=
  ⟨⟨"main.tf", ⟨2, 2, "  tags = merge("⟩⟩, "tags", "\"$\x7bmerge(a, b)\x7d\""⟩

def body : Body := [("tags", .scalar (.text "$\x7bmerge(a, b)\x7d")),
  (Hcl.startKey, .scalar (.int 1)), (Hcl.endKey, .scalar (.int 6))]

theorem parseConfig_text : parseConfig store.parser "main.tf" text = .ok [("locals", .list [.map body])] := by
  cbv

theorem classify : (FileItem.ofPath "main.tf").classify text = .config :=
  classify_l (text.drop 1)

theorem holds : (FileItem.ofPath "main.tf").Holds store text :=
  FileItem.holds_config (FileItem.reads_ofText (by rfl) (by decide)) rfl classify (by decide)
    (by cbv)

theorem entities_text :
    (list .localValue store (.ofPath "main.tf")).entities = [.localValue row] := by
  rw [list_config holds classify parseConfig_text]
  cbv

theorem parse_wrapped : parse (wrapped row.place.span.source.toList) = none := by cbv

end MergedTags

open MergedTags in
/-- Of a call over several lines, the row has the first line alone, which defines nothing. -/
theorem listed_local_not_redefined :
    (FileItem.ofPath "main.tf").Holds store text
      ∧ (FileItem.ofPath "main.tf").classify text = .config
      ∧ store.parser.Follows text
      ∧ (list .localValue store (.ofPath "main.tf")).entities = [.localValue row]
      ∧ store.parser.Follows (wrapped row.place.span.source.toList)
      ∧ ¬ row.Redefined store.parser := by
  have hfollows : ∀ content, store.parser.Follows content := FileStore.follows_ofText "main.tf" text
  refine ⟨holds, classify, hfollows text, entities_text, hfollows _, fun hredefined => ?_⟩
  obtain ⟨tree, block, node, hparse, -⟩ := hredefined "main.tf"
  obtain ⟨items, root, hitems, -⟩ := parseConfig_ok (hfollows _) hparse
  rw [parse_wrapped] at hitems
  cases hitems

end Rows

end TerraIndex
