import TerraIndex.Entity.Export
import TerraIndex.Proofs.Document.Bodies
import TerraIndex.Proofs.Document.Canonical
import TerraIndex.Proofs.Json.Numbers
import TerraIndex.Proofs.Json.Quoted
import TerraIndex.Proofs.Text.Lines
import TerraIndex.Text.Word
/-!
# What an address tells

An address is a row of labels with points between them, and behind a label a key may stand in
brackets. A row is read in one way only (`pointed_injective`), because a label holds neither points
nor brackets and a key in brackets shows where it ends. The words `module` and `data` in it cannot
be mistaken for types or names, since the number of labels tells how many modules there are and
whether the resource is a data source (`rowOf_injective`). So the address of an instance tells which
one it is (`instance_of_address`).

The address computed for a planned resource leaves its index out, the one of an instance in a state
does not, so the two are the same only where there is no index (`planned_address_eq_iff`).
-/

namespace TerraIndex

section Labels

/-- Letters, digits, underscores and hyphens, at least one. -/
structure IsLabel (cs : List Char) : Prop where
  ne_nil : cs ≠ []
  chars : ∀ c ∈ cs, Text.isWord c = true ∨ c = '-'

/-- Nothing, or an integer or a JSON string in brackets. -/
inductive IsKey : List Char → Prop
  | none : IsKey []
  | int (n : Int) : IsKey ('[' :: (intText n ++ [']']))
  | text {s q : List Char} (h : Json.Quoted s q) : IsKey ('[' :: (q ++ [']']))

/-- A label with the key behind it. -/
structure Segment where
  label : List Char
  key : List Char
  isLabel : IsLabel label
  isKey : IsKey key

def Segment.text (segment : Segment) : List Char := segment.label ++ segment.key

/-- Segments with points between them. -/
def joined (segments : List Segment) : List Char := sepBy ['.'] (segments.map Segment.text)

theorem IsLabel.not_mem {cs : List Char} (h : IsLabel cs) {c : Char}
    (hword : Text.isWord c = false) (hc : c ≠ '-') : c ∉ cs := fun hmem =>
  (h.chars c hmem).elim (fun htrue => Bool.false_ne_true (hword.symm.trans htrue)) hc

/-- No text begins with an integer and with a JSON string. -/
theorem intText_append_ne {n : Int} {s q rest rest' : List Char} (h : Json.Quoted s q) :
    intText n ++ ']' :: rest ≠ q ++ rest' := by
  obtain ⟨t, -, rfl⟩ := h
  intro heq
  rcases hn : intText n with _ | ⟨c, left⟩
  · rw [hn] at heq
    exact absurd (List.cons.inj heq).1 (by decide)
  · rw [hn] at heq
    have hquote : '"' ∈ intText n := by
      rw [hn, (List.cons.inj heq).1]
      exact List.mem_cons_self ..
    exact Json.intText_not_mem n (by decide) (by decide) hquote

/-- What may follow a segment: nothing, or a point. -/
def EndsSegment (rest : List Char) : Prop := ∀ c ∈ rest.head?, c = '.'

theorem EndsSegment.ne_bracket {rest cs : List Char} (h : EndsSegment rest) : rest ≠ '[' :: cs := by
  rintro rfl
  exact absurd (h '[' rfl) (by decide)

theorem IsKey.unique {key key' rest rest' : List Char} (h : IsKey key) (h' : IsKey key')
    (hrest : EndsSegment rest) (hrest' : EndsSegment rest')
    (heq : key ++ rest = key' ++ rest') : key = key' ∧ rest = rest' := by
  have hclose : ∀ n : Int, ']' ∉ intText n := fun n =>
    Json.intText_not_mem n (by decide) (by decide)
  cases h with
  | none =>
    cases h' with
    | none => exact ⟨rfl, heq⟩
    | int | text => exact absurd heq hrest.ne_bracket
  | int m =>
    cases h' with
    | none => exact absurd heq.symm hrest'.ne_bracket
    | int n =>
      have hinner : intText m ++ ']' :: rest = intText n ++ ']' :: rest' := by simpa using heq
      obtain ⟨htext, hleft⟩ := Text.first_unique (hclose m) (hclose n) hinner
      exact ⟨by rw [htext], hleft⟩
    | @text s q hq =>
      have hinner : intText m ++ ']' :: rest = q ++ (']' :: rest') := by simpa using heq
      exact absurd hinner (intText_append_ne hq)
  | @text s q hq =>
    cases h' with
    | none => exact absurd heq.symm hrest'.ne_bracket
    | int n =>
      have hinner : intText n ++ ']' :: rest' = q ++ (']' :: rest) := by simpa using heq.symm
      exact absurd hinner (intText_append_ne hq)
    | @text s' q' hq' =>
      have hinner : q ++ (']' :: rest) = q' ++ (']' :: rest') := by simpa using heq
      obtain ⟨-, rfl⟩ := Json.quoted_unique hq hq' hinner
      exact ⟨rfl, (List.cons.inj (List.append_cancel_left hinner)).2⟩

/-- A label ends where a point, a bracket or nothing follows. -/
theorem IsLabel.unique {label label' rest rest' : List Char} (h : IsLabel label)
    (h' : IsLabel label') (hrest : ∀ c ∈ rest.head?, c = '.' ∨ c = '[')
    (hrest' : ∀ c ∈ rest'.head?, c = '.' ∨ c = '[')
    (heq : label ++ rest = label' ++ rest') : label = label' ∧ rest = rest' := by
  have hstop : ∀ {front more cs : List Char}, IsLabel (front ++ more) →
      (∀ c ∈ (more ++ cs).head?, c = '.' ∨ c = '[') → more = [] := by
    intro front more cs hlabel hcs
    rcases more with _ | ⟨c, more⟩
    · rfl
    · have hmem : c ∈ front ++ c :: more := List.mem_append_right _ (List.mem_cons_self ..)
      rcases hcs c rfl with rfl | rfl
      · exact absurd hmem (hlabel.not_mem (by decide) (by decide))
      · exact absurd hmem (hlabel.not_mem (by decide) (by decide))
  rcases List.append_eq_append_iff.mp heq with ⟨more, rfl, rfl⟩ | ⟨more, rfl, rfl⟩
  · obtain rfl := hstop h' hrest
    exact ⟨(List.append_nil _).symm, rfl⟩
  · obtain rfl := hstop h hrest'
    exact ⟨List.append_nil _, rfl⟩

theorem IsKey.head {key rest : List Char} (h : IsKey key) (hrest : EndsSegment rest) :
    ∀ c ∈ (key ++ rest).head?, c = '.' ∨ c = '[' := by
  cases h with
  | none => exact fun c hc => .inl (hrest c hc)
  | int | text => exact fun c hc => .inr (Option.some.inj hc).symm

theorem Segment.unique {segment other : Segment} {rest rest' : List Char}
    (hrest : EndsSegment rest) (hrest' : EndsSegment rest')
    (heq : segment.text ++ rest = other.text ++ rest') : segment = other ∧ rest = rest' := by
  obtain ⟨label, key, hlabel, hkey⟩ := segment
  obtain ⟨label', key', hlabel', hkey'⟩ := other
  simp only [Segment.text, List.append_assoc] at heq
  obtain ⟨rfl, hbehind⟩ := hlabel.unique hlabel' (hkey.head hrest) (hkey'.head hrest') heq
  obtain ⟨rfl, rfl⟩ := hkey.unique hkey' hrest hrest' hbehind
  exact ⟨rfl, rfl⟩

end Labels

/-- Segments with a point in front of each. -/
def pointed (segments : List Segment) : List Char :=
  segments.flatMap fun segment => '.' :: segment.text

theorem endsSegment_pointed (segments : List Segment) : EndsSegment (pointed segments) := by
  intro c hc
  cases segments with
  | nil => cases hc
  | cons => exact (Option.some.inj hc).symm

@[simp] theorem pointed_append (segments more : List Segment) :
    pointed (segments ++ more) = pointed segments ++ pointed more := List.flatMap_append

theorem pointed_eq {segments : List Segment} (h : segments ≠ []) :
    pointed segments = '.' :: joined segments := by
  rcases segments with _ | ⟨segment, segments⟩
  · exact absurd rfl h
  · rw [joined, List.map_cons, sepBy_cons, List.flatMap_map]
    rfl

/-- A row of segments is read in one way only. -/
theorem pointed_injective : ∀ {segments others : List Segment},
    pointed segments = pointed others → segments = others
  | [], [], _ => rfl
  | segment :: segments, other :: others, h => by
    simp only [pointed, List.flatMap_cons, List.cons_append, List.cons.injEq, true_and] at h
    obtain ⟨rfl, hrest⟩ :=
      Segment.unique (endsSegment_pointed segments) (endsSegment_pointed others) h
    rw [pointed_injective hrest]

section Row

/-- A label without a key. -/
def Segment.plain (label : List Char) (h : IsLabel label) : Segment := ⟨label, [], h, .none⟩

def moduleWord : Segment := .plain "module".toList ⟨by decide, by decide⟩

def dataWord : Segment := .plain "data".toList ⟨by decide, by decide⟩

/-- The names of module calls with their keys, from the outermost on, each behind the word
`module`. -/
def callsOf (calls : List Segment) : List Segment :=
  calls.flatMap fun call => [moduleWord, call]

/-- The row of the address of a resource in the module that some calls lead to. -/
def rowOf (calls : List Segment) (isData : Bool) (type name : Segment) : List Segment :=
  callsOf calls ++ ((if isData then [dataWord] else []) ++ [type, name])

theorem length_callsOf : ∀ calls : List Segment, (callsOf calls).length = 2 * calls.length
  | [] => rfl
  | call :: calls => by
    have ih := length_callsOf calls
    rw [callsOf] at ih ⊢
    rw [List.flatMap_cons, List.length_append, ih]
    simp only [List.length_cons, List.length_nil]
    omega

theorem callsOf_injective : ∀ {calls others : List Segment}, callsOf calls = callsOf others →
    calls = others
  | [], [], _ => rfl
  | call :: calls, other :: others, h => by
    simp only [callsOf, List.flatMap_cons, List.cons_append, List.nil_append, List.cons.injEq,
      true_and] at h
    rw [h.1, callsOf_injective h.2]

/-- The number of segments is even for a managed resource and odd for a data source. -/
theorem rowOf_injective {calls calls' : List Segment} {isData isData' : Bool}
    {type name type' name' : Segment}
    (h : rowOf calls isData type name = rowOf calls' isData' type' name') :
    calls = calls' ∧ isData = isData' ∧ type = type' ∧ name = name' := by
  have hlength := congrArg List.length h
  simp only [rowOf, List.length_append, length_callsOf, List.length_cons, List.length_nil]
    at hlength
  obtain rfl : isData = isData' := by
    cases isData <;> cases isData' <;> first | rfl | (simp at hlength; omega)
  obtain ⟨hcalls, hrest⟩ := List.append_inj h (by
    rw [length_callsOf, length_callsOf]
    omega)
  have hlast := List.append_cancel_left hrest
  obtain ⟨rfl, hname⟩ := List.cons.inj hlast
  exact ⟨callsOf_injective hcalls, rfl, rfl, (List.cons.inj hname).1⟩

end Row

section Addresses

/-- An index that an address can tell: none, an integer or a string. -/
inductive IsIndex : Raw → Prop
  | null : IsIndex .null
  | int (n : Int) : IsIndex (.int n)
  | text (s : String) : IsIndex (.text s)

theorem indexText?_int {n : Int} {text : List Char} (h : indexText? (.int n) = some text) :
    text = '[' :: (intText n ++ [']']) := by
  simp only [indexText?, Raw.display?, intText?, Option.map_eq_some_iff] at h
  obtain ⟨_, hdigits, rfl⟩ := h
  split_ifs at hdigits
  rw [← Option.some.inj hdigits]
  rfl

section Indices

variable {index index' : Raw} {text : List Char} (h : IsIndex index)
  (htext : indexText? index = some text)
include h htext

theorem IsIndex.isKey : IsKey text := by
  cases h with
  | null => exact Option.some.inj htext ▸ .none
  | int n => exact indexText?_int htext ▸ .int n
  | text s => exact Option.some.inj htext ▸ .text (Json.quoted_ascii s.toList)

theorem IsIndex.injective (h' : IsIndex index') (htext' : indexText? index' = some text) :
    index = index' := by
  cases h with
  | null =>
    obtain rfl := Option.some.inj htext
    cases h' with
    | null => rfl
    | int n => cases indexText?_int htext'
    | text t => cases htext'
  | int m =>
    obtain rfl := indexText?_int htext
    cases h' with
    | null => cases htext'
    | int n =>
      have hinner : intText m ++ [']'] = intText n ++ [']'] :=
        (List.cons.inj (indexText?_int htext')).2
      rw [Json.intText_injective (List.append_cancel_right hinner)]
    | text t =>
      have hinner : Text.quoteAscii t.toList ++ [']'] = intText m ++ [']'] :=
        (List.cons.inj (Option.some.inj htext')).2
      exact absurd hinner.symm (intText_append_ne (Json.quoted_ascii _))
  | text s =>
    obtain rfl := Option.some.inj htext
    cases h' with
    | null => cases htext'
    | int n =>
      have hinner : Text.quoteAscii s.toList ++ [']'] = intText n ++ [']'] :=
        (List.cons.inj (indexText?_int htext')).2
      exact absurd hinner.symm (intText_append_ne (Json.quoted_ascii _))
    | text t =>
      have hinner : Text.quoteAscii t.toList ++ [']'] = Text.quoteAscii s.toList ++ [']'] :=
        (List.cons.inj (Option.some.inj htext')).2
      obtain ⟨hs, -⟩ :=
        Json.quoted_unique (Json.quoted_ascii t.toList) (Json.quoted_ascii s.toList) hinner
      rw [String.toList_injective hs]

end Indices

/-- The module of a resource: none for the root module, otherwise the calls that lead to it. -/
inductive IsModule : List Char → List Segment → Prop
  | root : IsModule [] []
  | calls {calls : List Segment} : calls ≠ [] → IsModule (joined (callsOf calls)) calls

/-- What a resource and its instance say of their address. -/
structure Addressed (resource inst : Body) : Prop where
  type : IsLabel (resource.textAt "type" "").toList
  name : IsLabel (resource.textAt "name" "").toList
  mode : State.mode resource = "managed" ∨ State.mode resource = "data"
  module : ∃ calls, IsModule (resource.textAt "module" "").toList calls
  index : ∃ index, rawAt inst "index_key" = .ok index ∧ IsIndex index

theorem toList_resourceAddress (type name mode module : String) :
    (resourceAddress type name mode module).toList
      = (if module = "" then [] else module.toList ++ ['.'])
        ++ ((if mode = "data" then "data".toList ++ ['.'] else [])
          ++ (type.toList ++ '.' :: name.toList)) := by
  simp only [resourceAddress, plainAddress]
  split_ifs <;> simp

/-- An address is the row of its module, the word for data sources, its type, and its name with the
index behind it. -/
theorem pointed_rowOf {calls : List Segment} {type name : Segment} {index : List Char}
    {typeText nameText mode module : String} (hmodule : IsModule module.toList calls)
    (htype : type.text = typeText.toList) (hname : name.text = nameText.toList ++ index) :
    pointed (rowOf calls (mode = "data") type name)
      = '.' :: ((resourceAddress typeText nameText mode module).toList ++ index) := by
  have hlast : pointed [type, name]
      = '.' :: (typeText.toList ++ '.' :: (nameText.toList ++ index)) := by
    simp [pointed, htype, hname]
  have hdata : pointed (if mode = "data" then [dataWord] else []) ++ pointed [type, name]
      = '.' :: ((if mode = "data" then "data".toList ++ ['.'] else [])
        ++ (typeText.toList ++ '.' :: (nameText.toList ++ index))) := by
    rw [hlast]
    split_ifs
    · rfl
    · rfl
  simp only [rowOf, pointed_append, decide_eq_true_eq, hdata, toList_resourceAddress]
  generalize hm : module.toList = path at hmodule
  cases hmodule with
  | root =>
    rw [if_pos (String.toList_eq_nil_iff.mp hm)]
    simp [callsOf, pointed]
  | calls hne =>
    have hcalls : callsOf calls ≠ [] := by
      rw [← List.length_pos_iff, length_callsOf]
      have hpos := List.length_pos_iff.mpr hne
      omega
    have hmodule : module ≠ "" := by
      rintro rfl
      have hpointed := pointed_eq hcalls
      rw [← hm] at hpointed
      obtain ⟨call, rest, rfl⟩ := List.exists_cons_of_ne_nil hne
      exact absurd hpointed (by simp [callsOf, pointed, moduleWord, Segment.plain, Segment.text])
    rw [if_neg hmodule, pointed_eq hcalls]
    simp

/-- A module is told by its calls. -/
theorem IsModule.unique {module module' : List Char} {calls : List Segment}
    (h : IsModule module calls) (h' : IsModule module' calls) : module = module' := by
  cases h with
  | root =>
    cases h' with
    | root => rfl
    | calls hne => exact absurd rfl hne
  | calls hne =>
    cases h' with
    | root => exact absurd rfl hne
    | calls => rfl

theorem address_ofInstance {place : Located} {resource inst : Body} {r : Resource}
    (h : Resource.ofInstance place resource inst = .ok r) :
    ∃ index text, rawAt inst "index_key" = .ok index ∧ indexText? index = some text
      ∧ r.address.toList = (State.address resource).toList ++ text := by
  unfold Resource.ofInstance at h
  obtain ⟨index, hindex, h⟩ := bind_ok h
  obtain ⟨address, haddress, h⟩ := bind_ok h
  obtain ⟨_, -, h⟩ := bind_ok h
  obtain ⟨attributes, -, h⟩ := bind_ok h
  have hr : r.address = address := by
    cases attributes with
    | some => rw [← Except.ok.inj h]
    | none =>
      obtain ⟨_, -, h⟩ := bind_ok h
      rw [← Except.ok.inj h]
  unfold State.instanceAddress at haddress
  split at haddress
  · rename_i full hfull
    obtain ⟨text, htext, rfl⟩ := Option.map_eq_some_iff.mp hfull
    refine ⟨index, text, hindex, htext, ?_⟩
    rw [hr, ← Except.ok.inj haddress, String.toList_append, String.toList_ofList]
    rfl
  · cases haddress

/-- Instances with the same address agree in type, name, mode, module and index. -/
theorem instance_of_address {place place' : Located} {resource resource' inst inst' : Body}
    {r r' : Resource} (hr : Resource.ofInstance place resource inst = .ok r)
    (hr' : Resource.ofInstance place' resource' inst' = .ok r') (h : Addressed resource inst)
    (h' : Addressed resource' inst') (heq : r.address = r'.address) :
    resource.textAt "type" "" = resource'.textAt "type" ""
      ∧ resource.textAt "name" "" = resource'.textAt "name" ""
      ∧ State.mode resource = State.mode resource'
      ∧ resource.textAt "module" "" = resource'.textAt "module" ""
      ∧ rawAt inst "index_key" = rawAt inst' "index_key" := by
  obtain ⟨index, text, hindex, htext, haddress⟩ := address_ofInstance hr
  obtain ⟨index', text', hindex', htext', haddress'⟩ := address_ofInstance hr'
  obtain ⟨calls, hcalls⟩ := h.module
  obtain ⟨calls', hcalls'⟩ := h'.module
  obtain ⟨_, hraw, hkey⟩ := h.index
  obtain rfl := Except.ok.inj (hindex.symm.trans hraw)
  obtain ⟨_, hraw', hkey'⟩ := h'.index
  obtain rfl := Except.ok.inj (hindex'.symm.trans hraw')
  let row (resource : Body) (calls : List Segment) (type name : Segment) : List Segment :=
    rowOf calls (State.mode resource = "data") type name
  let name : Segment := ⟨_, _, h.name, hkey.isKey htext⟩
  let name' : Segment := ⟨_, _, h'.name, hkey'.isKey htext'⟩
  have hrow : pointed (row resource calls (.plain _ h.type) name) = '.' :: r.address.toList := by
    rw [haddress]
    exact pointed_rowOf hcalls (List.append_nil _) rfl
  have hrow' : pointed (row resource' calls' (.plain _ h'.type) name')
      = '.' :: r'.address.toList := by
    rw [haddress']
    exact pointed_rowOf hcalls' (List.append_nil _) rfl
  rw [heq, ← hrow'] at hrow
  obtain ⟨rfl, hdata, htype, hname⟩ := rowOf_injective (pointed_injective hrow)
  have hmode : State.mode resource = State.mode resource' := by
    rw [decide_eq_decide] at hdata
    rcases h.mode with hmanaged | hisData
    · rcases h'.mode with hmanaged' | hisData'
      · rw [hmanaged, hmanaged']
      · exact absurd (hmanaged.symm.trans (hdata.mpr hisData')) (by decide)
    · rw [hisData, hdata.mp hisData]
  refine ⟨String.toList_injective (Segment.mk.inj htype).1,
    String.toList_injective (Segment.mk.inj hname).1, hmode,
    String.toList_injective (hcalls.unique hcalls'), ?_⟩
  obtain rfl : text = text' := (Segment.mk.inj hname).2
  rw [hindex, hindex', hkey.injective htext hkey' htext']

end Addresses

theorem address_ofPlan {place : Located} {entry : Body} {r : Resource}
    (h : Resource.ofPlan place entry = .ok r) : r.address = Plan.address entry := by
  unfold Resource.ofPlan at h
  obtain ⟨_, -, h⟩ := bind_ok h
  obtain ⟨_, -, h⟩ := bind_ok h
  obtain ⟨_, -, h⟩ := bind_ok h
  rw [← Except.ok.inj h]

/-- The labels of a planned resource without an address of its own are those of a resource in the
root module of a state. -/
structure SameLabels (entry resource : Body) : Prop where
  noAddress : entry.textAt "address" "" = ""
  rootModule : resource.textAt "module" "" = ""
  type : entry.textAt "type" "" = resource.textAt "type" ""
  name : entry.textAt "name" "" = resource.textAt "name" ""
  mode : Plan.mode entry = State.mode resource

theorem SameLabels.address_eq {entry resource : Body} (h : SameLabels entry resource) :
    Plan.address entry = State.address resource := by
  rw [Plan.address, if_pos h.noAddress, State.address, h.type, h.name, h.mode, h.rootModule]

/-- Only no index at all is written as nothing. -/
theorem eq_nil_iff_of_indexText? {index : Raw} {text : List Char}
    (h : indexText? index = some text) : text = [] ↔ index = .null := by
  have hne : ((index.display?.map fun text => '[' :: text ++ [']']) = some text) → text ≠ [] := by
    rintro hpart rfl
    obtain ⟨_, -, hnil⟩ := Option.map_eq_some_iff.mp hpart
    cases hnil
  cases index with
  | null => exact iff_of_true (Option.some.inj h).symm rfl
  | text s => exact iff_of_false (Option.some.inj h ▸ List.cons_ne_nil _ _) nofun
  | _ => exact iff_of_false (hne h) nofun

/-- A planned resource without an address of its own, whatever its index, has the address of an
instance with the same labels exactly if the instance has no index. -/
theorem planned_address_eq_iff {place place' : Located} {entry resource inst : Body}
    {r r' : Resource} {index : Raw} (hr : Resource.ofPlan place entry = .ok r)
    (hr' : Resource.ofInstance place' resource inst = .ok r') (hlabels : SameLabels entry resource)
    (hindex : rawAt inst "index_key" = .ok index) : r.address = r'.address ↔ index = .null := by
  obtain ⟨_, text, hraw, htext, haddress⟩ := address_ofInstance hr'
  obtain rfl := Except.ok.inj (hindex.symm.trans hraw)
  rw [address_ofPlan hr, hlabels.address_eq, ← eq_nil_iff_of_indexText? htext, ← String.toList_inj,
    haddress, List.self_eq_append_right]

namespace KeyedModule

def moduleText : String := "module.net[\"a.b]\"].module.x[2]"

def net : Segment where
  label := "net".toList
  key := '[' :: (Text.quoteAscii "a.b]".toList ++ [']'])
  isLabel := ⟨by decide, by decide⟩
  isKey := .text (Json.quoted_ascii _)

def inner : Segment where
  label := ['x']
  key := '[' :: (intText 2 ++ [']'])
  isLabel := ⟨by decide, by decide⟩
  isKey := .int 2

/-- The resource as one file has it, and as another one does. -/
def resource : Body := [("module", .scalar (.text moduleText)), ("mode", .scalar (.text "data")),
  ("type", .scalar (.text "data")), ("name", .scalar (.text "module"))]

def otherResource : Body := [("mode", .scalar (.text "data")), ("type", .scalar (.text "data")),
  ("name", .scalar (.text "module")), ("provider", .scalar (.text "aws")),
  ("module", .scalar (.text moduleText))]

def inst : Body := [("index_key", .scalar (.text "x\"]")), ("attributes", .map [])]

def otherInst : Body := [("attributes", .map [("id", .scalar (.int 7))]),
  ("index_key", .scalar (.text "x\"]"))]

theorem isModule : IsModule moduleText.toList [net, inner] := by
  have htext : moduleText.toList = joined (callsOf [net, inner]) := by rfl
  rw [htext]
  exact .calls (List.cons_ne_nil _ _)

theorem addressed : Addressed resource inst where
  type := ⟨by decide, by decide⟩
  name := ⟨by decide, by decide⟩
  mode := .inr rfl
  module := ⟨_, isModule⟩
  index := ⟨_, rfl, .text _⟩

theorem addressed_other : Addressed otherResource otherInst where
  type := ⟨by decide, by decide⟩
  name := ⟨by decide, by decide⟩
  mode := .inr rfl
  module := ⟨_, isModule⟩
  index := ⟨_, rfl, .text _⟩

end KeyedModule

open KeyedModule in
theorem instance_of_address_keyedModule : ∃ r r',
    Resource.ofInstance default resource inst = .ok r
      ∧ Resource.ofInstance default otherResource otherInst = .ok r'
      ∧ Addressed resource inst ∧ Addressed otherResource otherInst
      ∧ r.address = "module.net[\"a.b]\"].module.x[2].data.data.module[\"x\\\"]\"]"
      ∧ r.address = r'.address
      ∧ resource.textAt "type" "" = otherResource.textAt "type" ""
      ∧ resource.textAt "name" "" = otherResource.textAt "name" ""
      ∧ State.mode resource = State.mode otherResource
      ∧ resource.textAt "module" "" = otherResource.textAt "module" ""
      ∧ rawAt inst "index_key" = rawAt otherInst "index_key" := by
  have hr : Resource.ofInstance default resource inst = .ok _ := rfl
  have hr' : Resource.ofInstance default otherResource otherInst = .ok _ := rfl
  exact ⟨_, _, hr, hr', addressed, addressed_other, by rfl, by rfl,
    instance_of_address hr hr' addressed addressed_other (by rfl)⟩

namespace PlannedInstances

/-- A planned instance of a resource, and the resource in a state. -/
def entry (index : Node) : Body := [("mode", .scalar (.text "managed")),
  ("type", .scalar (.text "aws_instance")), ("name", .scalar (.text "web")), ("index", index)]

def resource : Body := [("mode", .scalar (.text "managed")),
  ("type", .scalar (.text "aws_instance")), ("name", .scalar (.text "web"))]

theorem sameLabels (index : Node) : SameLabels (entry index) resource :=
  ⟨rfl, rfl, rfl, rfl, rfl⟩

end PlannedInstances

open PlannedInstances in
theorem planned_address_eq_iff_noIndex : ∃ r r',
    Resource.ofPlan default (entry (.scalar .null)) = .ok r
      ∧ Resource.ofInstance default resource [] = .ok r'
      ∧ SameLabels (entry (.scalar .null)) resource
      ∧ rawAt [] "index_key" = .ok .null
      ∧ r.address = "aws_instance.web"
      ∧ (r.address = r'.address ↔ Raw.null = .null) := by
  have hr : Resource.ofPlan default (entry (.scalar .null)) = .ok _ := rfl
  have hr' : Resource.ofInstance default resource [] = .ok _ := rfl
  exact ⟨_, _, hr, hr', sameLabels _, rfl, by rfl,
    planned_address_eq_iff hr hr' (sameLabels _) rfl⟩

open PlannedInstances in
/-- Two planned instances with different indexes get one address, and a state gives the first of
them another one. -/
theorem planned_address_lacks_index : ∃ r s r',
    Resource.ofPlan default (entry (.scalar (.int 0))) = .ok r
      ∧ Resource.ofPlan default (entry (.scalar (.int 1))) = .ok s
      ∧ Resource.ofInstance default resource [("index_key", .scalar (.int 0))] = .ok r'
      ∧ r.address = "aws_instance.web" ∧ s.address = r.address
      ∧ r'.address = "aws_instance.web[0]" ∧ r.address ≠ r'.address :=
  ⟨_, _, _, rfl, rfl, rfl, by rfl, by rfl, by rfl, by decide⟩

end TerraIndex
