import Mathlib
import TerraIndex.Proofs.Listing.ConfigBlocks
/-!
# What a listing of one kind reads of a configuration

The blocks of a kind stand under the key of their type, but their lines are looked up under every
key that spells the type up to case. So a listing reads those keys and no others
(`listing_congr`): it is the same for two trees with the same blocks under the type itself and
the same blocks, in the same order, under its spellings.

A block whose type is written in other letters than the kind is not listed, and still takes a
number among those that are (`listing_other_spelling`).
-/

namespace TerraIndex

/-- The type of the blocks that the entities of a kind are built from. -/
def ListKind.blockType : ListKind → String
  | .resource => "resource"
  | .dataSource => "data"
  | .module => "module"
  | .output => "output"
  | .variable => "variable"
  | .provider => "provider"
  | .localValue => "locals"

/-- The blocks under the keys that spell a type up to case, in the order of the tree. -/
def spelledBlocks (tree : Body) (type : String) : List Node :=
  tree.flatMap fun (key, value) => if sameFolded key type then blocksOf value else []

/-- What listing a kind of a loaded file delivers. -/
def SourceFile.listing (file : SourceFile) (kind : ListKind) : Listing :=
  Listing.ofSteps kind file.path none (file.steps kind)

theorem list_of_load {kind : ListKind} {store : FileStore} {item : FileItem} {file : SourceFile}
    (h : load store item = .ok file) : list kind store item = file.listing kind := by
  rw [list, h]
  rfl

namespace ConfigText

theorem matchingBodies_spelled (text : ConfigText) (type : String) (labels : List String) :
    text.matchingBodies type labels
      = (spelledBlocks text.tree type).flatMap (descend labels) := by
  rw [matchingBodies, spelledBlocks, List.flatMap_assoc]
  refine List.flatMap_congr ?_
  rintro ⟨key, value⟩ -
  dsimp only
  split_ifs <;> rfl

/-- The lines of a block are looked up among the blocks under the spellings of its type. -/
theorem locate_congr (content : List Char) {tree other : Body} {type : String}
    (h : spelledBlocks tree type = spelledBlocks other type) (labels : List String)
    (occurrence : Int) :
    (ofContent content tree).locate type labels occurrence
      = (ofContent content other).locate type labels occurrence := by
  have hbodies : (ofContent content tree).matchingBodies type labels
      = (ofContent content other).matchingBodies type labels := by
    rw [matchingBodies_spelled, matchingBodies_spelled]
    exact congrArg (List.flatMap (descend labels)) h
  have hspan : ∀ body, (ofContent content tree).spanOf body
      = (ofContent content other).spanOf body := fun _ => rfl
  unfold locate
  simp only [hbodies, hspan]

end ConfigText

namespace SourceFile

variable (path content : String) {tree other : Body} (type : String)

theorem configBlocks_congr (depth : Nat) (h : tree.child? type = other.child? type) :
    configBlocks tree type depth = configBlocks other type depth := by
  rw [configBlocks, configBlocks, h]

theorem blockPlace_congr (h : spelledBlocks tree type = spelledBlocks other type)
    (block : ConfigBlock) :
    (⟨path, content, .config, tree⟩ : SourceFile).blockPlace type block
      = (⟨path, content, .config, other⟩ : SourceFile).blockPlace type block :=
  congrArg (Located.mk path)
    (ConfigText.locate_congr content.toList h block.labels block.occurrence)

theorem labelledAttempts_congr (build : Located → String → Body → Attempt)
    (hown : tree.child? type = other.child? type)
    (hspelled : spelledBlocks tree type = spelledBlocks other type) :
    (⟨path, content, .config, tree⟩ : SourceFile).labelledAttempts type build
      = (⟨path, content, .config, other⟩ : SourceFile).labelledAttempts type build := by
  simp only [labelledAttempts, configBlocks_congr type 1 hown,
    blockPlace_congr path content type hspelled]

theorem typedAttempts_congr (build : Located → String → String → Body → Attempt)
    (hown : tree.child? type = other.child? type)
    (hspelled : spelledBlocks tree type = spelledBlocks other type) :
    (⟨path, content, .config, tree⟩ : SourceFile).typedAttempts type build
      = (⟨path, content, .config, other⟩ : SourceFile).typedAttempts type build := by
  simp only [typedAttempts, configBlocks_congr type 2 hown,
    blockPlace_congr path content type hspelled]

theorem localSteps_congr (h : spelledBlocks tree "locals" = spelledBlocks other "locals")
    (block : ConfigBlock) :
    (⟨path, content, .config, tree⟩ : SourceFile).localSteps block
      = (⟨path, content, .config, other⟩ : SourceFile).localSteps block := by
  have hspan := ConfigText.locate_congr content.toList h [] block.occurrence
  simp only [localSteps, configText, hspan]
  rfl

theorem steps_congr (kind : ListKind)
    (hown : tree.child? kind.blockType = other.child? kind.blockType)
    (hspelled : spelledBlocks tree kind.blockType = spelledBlocks other kind.blockType) :
    (⟨path, content, .config, tree⟩ : SourceFile).steps kind
      = (⟨path, content, .config, other⟩ : SourceFile).steps kind := by
  cases kind with
  | resource =>
    have h := fun build => typedAttempts_congr path content "resource" build hown hspelled
    simp only [steps, resourceAttempts, h]
  | dataSource =>
    have h := fun build => typedAttempts_congr path content "data" build hown hspelled
    simp only [steps, h]
  | module =>
    have h := fun build => labelledAttempts_congr path content "module" build hown hspelled
    simp only [steps, h]
  | provider =>
    have h := fun build => labelledAttempts_congr path content "provider" build hown hspelled
    simp only [steps, h]
  | output =>
    have h := fun build => labelledAttempts_congr path content "output" build hown hspelled
    simp only [steps, outputAttempts, if_true, h]
  | «variable» =>
    have h := fun build => labelledAttempts_congr path content "variable" build hown hspelled
    simp only [steps, variableAttempts, if_true, h]
  | localValue =>
    have hblocks := configBlocks_congr "locals" 0 hown
    have hsteps := funext (localSteps_congr path content hspelled)
    simp only [steps, if_true, hsteps, hblocks]

/-- Of the top-level entries of a configuration, a listing reads the one under the type of its
blocks, and of the others the blocks under keys that spell this type up to case. -/
theorem listing_congr (kind : ListKind)
    (hown : tree.child? kind.blockType = other.child? kind.blockType)
    (hspelled : spelledBlocks tree kind.blockType = spelledBlocks other kind.blockType) :
    (⟨path, content, .config, tree⟩ : SourceFile).listing kind
      = (⟨path, content, .config, other⟩ : SourceFile).listing kind := by
  rw [listing, listing, steps_congr path content kind hown hspelled]

end SourceFile

namespace SpelledOutputs

def text : List Char :=
  ("Output \"url\" \x7b\n  description = \"old\"\n\x7d\n\n"
    ++ "output \"url\" \x7b\n  value = 1\n\x7d\n").toList

def block (entry : String × Node) (first last : Int) : Node :=
  .map [("url", .map [entry, (Hcl.startKey, .scalar (.int first)),
    (Hcl.endKey, .scalar (.int last))])]

def outputs : Node := .list [block ("value", .scalar (.int 1)) 5 7]

def otherOutputs : Node := .list [block ("description", .scalar (.text "old")) 1 3]

/-- The tree of the text. -/
def tree : Body := [("Output", otherOutputs), ("output", outputs)]

/-- The outputs alone, and the outputs among entries of other kinds. -/
def own : Body := [("output", outputs)]

def among : Body := [("locals", .list []), ("output", outputs), ("outputs", otherOutputs)]

def file (tree : Body) : SourceFile := ⟨"main.tf", String.ofList text, .config, tree⟩

/-- The first and last lines of what is listed. -/
def lines (tree : Body) : List (Int × Int) :=
  ((file tree).listing .output).entities.map fun entity =>
    (entity.place.span.startLine, entity.place.span.endLine)

theorem parseConfig_text : parseConfig Hcl.decode "main.tf" text = .ok tree := by cbv

theorem lines_tree : lines tree = [(1, 3)] := by rfl

theorem lines_own : lines own = [(5, 7)] := by rfl

end SpelledOutputs

open SpelledOutputs in
theorem listing_congr_among :
    among.child? ListKind.output.blockType = own.child? ListKind.output.blockType
      ∧ spelledBlocks among ListKind.output.blockType = spelledBlocks own ListKind.output.blockType
      ∧ lines own = [(5, 7)]
      ∧ (file among).listing .output = (file own).listing .output := by
  have hown : among.child? ListKind.output.blockType = own.child? ListKind.output.blockType := by
    rfl
  have hspelled : spelledBlocks among ListKind.output.blockType
      = spelledBlocks own ListKind.output.blockType := by rfl
  exact ⟨hown, hspelled, lines_own,
    SourceFile.listing_congr "main.tf" (String.ofList text) .output hown hspelled⟩

open SpelledOutputs in
/-- With a block of the other spelling in front, the output on lines 5 to 7 is listed with the lines
of that block, although the tree holds the same outputs. -/
theorem listing_other_spelling :
    parseConfig Hcl.decode "main.tf" text = .ok tree
      ∧ tree.child? ListKind.output.blockType = own.child? ListKind.output.blockType
      ∧ lines tree = [(1, 3)] ∧ lines own = [(5, 7)]
      ∧ (file tree).listing .output ≠ (file own).listing .output := by
  refine ⟨parseConfig_text, rfl, lines_tree, lines_own, fun h => ?_⟩
  have hlines : lines tree = lines own := by rw [lines, h, lines]
  rw [lines_tree, lines_own] at hlines
  exact absurd hlines (by decide)

end TerraIndex
