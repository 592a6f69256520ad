import TerraIndex.Document.Reserved
import TerraIndex.Entity.Meta
import TerraIndex.Proofs.Document.Decoded
/-!
# The keys of a document

What holds of all keys of a node holds of those of its value (`toRaw_keys`) and of the value that
the decoder reads in its canonical text (`decode_keys`), whether or not the decoder can read all of
that text. A sanitized node has no reserved keys (`sanitize_keys`).
-/

namespace TerraIndex

open Json

section Keys

variable (P : String → Prop)

mutual

/-- All keys of the maps in the value, at any depth, have the property. -/
def Raw.Keys : Raw → Prop
  | .list items => itemsKeys items
  | .tuple items => itemsKeys items
  | .map entries => entriesKeys entries
  | _ => True

def itemsKeys : List Raw → Prop
  | [] => True
  | item :: rest => item.Keys ∧ itemsKeys rest

def entriesKeys : List (String × Raw) → Prop
  | [] => True
  | (key, value) :: rest => P key ∧ value.Keys ∧ entriesKeys rest

end

mutual

/-- All keys of the maps in the node, at any depth, have the property. -/
def Node.Keys : Node → Prop
  | .scalar s => s.toRaw.Keys P
  | .list items => nodesKeys items
  | .map entries => bodyKeys entries
  | .stray _ => True

def nodesKeys : List Node → Prop
  | [] => True
  | node :: rest => node.Keys ∧ nodesKeys rest

def bodyKeys : List (String × Node) → Prop
  | [] => True
  | (key, node) :: rest => P key ∧ node.Keys ∧ bodyKeys rest

end

end Keys

section Lemmas

variable {P : String → Prop}

theorem itemsKeys_iff (items : List Raw) : itemsKeys P items ↔ ∀ item ∈ items, item.Keys P := by
  induction items with
  | nil => simp [itemsKeys]
  | cons item items ih => simp [itemsKeys, ih]

theorem entriesKeys_iff (entries : List (String × Raw)) :
    entriesKeys P entries ↔ ∀ entry ∈ entries, P entry.1 ∧ entry.2.Keys P := by
  induction entries with
  | nil => simp [entriesKeys]
  | cons entry entries ih => simp [entriesKeys, ih, and_assoc]

theorem nodesKeys_iff (nodes : List Node) : nodesKeys P nodes ↔ ∀ node ∈ nodes, node.Keys P := by
  induction nodes with
  | nil => simp [nodesKeys]
  | cons node nodes ih => simp [nodesKeys, ih]

theorem bodyKeys_iff (body : Body) :
    bodyKeys P body ↔ ∀ entry ∈ body, P entry.1 ∧ entry.2.Keys P := by
  induction body with
  | nil => simp [bodyKeys]
  | cons entry body ih => simp [bodyKeys, ih, and_assoc]

theorem entriesKeys_insert {entries : List (String × Raw)} {key : String} {value : Raw}
    (h : entriesKeys P entries) (hkey : P key) (hvalue : value.Keys P) :
    entriesKeys P (insertEntry entries key value) := by
  refine (entriesKeys_iff _).mpr fun entry hentry => ?_
  rcases mem_insertEntry hentry with hentry | rfl
  · exact (entriesKeys_iff _).mp h entry hentry
  · exact ⟨hkey, hvalue⟩

theorem entriesKeys_merge {added : List (String × Raw)} : ∀ {entries : List (String × Raw)},
    entriesKeys P entries → entriesKeys P added → entriesKeys P (mergeEntries entries added) := by
  induction added with
  | nil => exact fun h _ => h
  | cons entry added ih =>
    exact fun h hadded => ih (entriesKeys_insert h hadded.1 hadded.2.1) hadded.2.2

mutual

theorem toRaw_keys : ∀ {node : Node} {raw : Raw}, node.Keys P → node.toRaw = .ok raw → raw.Keys P
  | .scalar _, _, h, hraw => by
    rw [← Except.ok.inj hraw]
    exact h
  | .list items, _, h, hraw => by
    obtain ⟨raws, hraws, rfl⟩ := map_ok hraw
    exact toRawList_keys items h hraws
  | .map entries, _, h, hraw => by
    obtain ⟨raws, hraws, rfl⟩ := map_ok hraw
    exact toRawEntries_keys entries h hraws
  | .stray _, _, _, hraw => by cases hraw

theorem toRawList_keys : ∀ (nodes : List Node) {raws : List Raw}, nodesKeys P nodes →
    Node.toRawList nodes = .ok raws → itemsKeys P raws
  | [], _, _, hraws => by
    rw [← Except.ok.inj hraws]
    trivial
  | node :: nodes, _, h, hraws => by
    obtain ⟨raw, hraw, hraws⟩ := bind_ok hraws
    obtain ⟨rest, hrest, hraws⟩ := bind_ok hraws
    rw [← Except.ok.inj hraws]
    exact ⟨toRaw_keys h.1 hraw, toRawList_keys nodes h.2 hrest⟩

theorem toRawEntries_keys : ∀ (body : Body) {raws : List (String × Raw)}, bodyKeys P body →
    Node.toRawEntries body = .ok raws → entriesKeys P raws
  | [], _, _, hraws => by
    rw [← Except.ok.inj hraws]
    trivial
  | (key, node) :: body, _, h, hraws => by
    obtain ⟨raw, hraw, hraws⟩ := bind_ok hraws
    obtain ⟨rest, hrest, hraws⟩ := bind_ok hraws
    rw [← Except.ok.inj hraws]
    exact ⟨h.1, toRaw_keys h.2.1 hraw, toRawEntries_keys body h.2.2 hrest⟩

end

/-- The scalar holds a value of a document. -/
def Scalar.IsOwn (s : Scalar) : Prop := ∀ value, s ≠ .foreign value

mutual

theorem sanitize_keys : ∀ {node : Node}, node.Holds Scalar.IsOwn →
    node.sanitize.Keys (isReserved · = false)
  | .scalar s, h => by
    cases s with
    | foreign value => exact absurd rfl (h value)
    | _ => trivial
  | .list items, h => sanitizeList_keys items h
  | .map entries, h => sanitizeEntries_keys entries h.2
  | .stray _, h => h.elim

theorem sanitizeList_keys : ∀ (nodes : List Node), itemsHold Scalar.IsOwn nodes →
    nodesKeys (isReserved · = false) (Node.sanitizeList nodes)
  | [], _ => trivial
  | _ :: nodes, h => ⟨sanitize_keys h.1, sanitizeList_keys nodes h.2⟩

theorem sanitizeEntries_keys : ∀ (body : Body), valuesHold Scalar.IsOwn body →
    bodyKeys (isReserved · = false) (Node.sanitizeEntries body)
  | [], _ => trivial
  | (key, _) :: body, h => by
    rw [Node.sanitizeEntries]
    split_ifs with hkey
    · exact sanitizeEntries_keys body h.2
    · exact ⟨by simpa using hkey, sanitize_keys h.1, sanitizeEntries_keys body h.2⟩

end

section Results

/-- The text begins like a value, and whatever value is read from its beginning has the property and
leaves nothing of it. -/
structure Yields (Q : Raw → Prop) (t : List Char) : Prop where
  head : ∃ c cs, t = c :: cs ∧ isBlank c = false ∧ c ≠ ']' ∧ c ≠ '\ufeff'
  read : ∀ {fuel : Nat} {rest left : List Char} {v : Raw}, Ends rest →
    scanValue fuel (t ++ rest) = .ok (v, left) → left = rest ∧ Q v

/-- A token is read whole, or the value it stands for is refused. -/
theorem yields_token {Q : Raw → Prop} {t : List Char} {v : Raw}
    (hhead : ∃ c cs, t = c :: cs ∧ isBlank c = false ∧ c ≠ ']' ∧ c ≠ '\ufeff') (hv : Q v)
    (hscan : ∀ fuel rest, Ends rest → scanValue (fuel + 1) (t ++ rest) = .ok (v, rest)) :
    Yields Q t where
  head := hhead
  read := by
    intro fuel rest left v' hrest h
    cases fuel with
    | zero => cases h
    | succ fuel =>
      rw [hscan fuel rest hrest, Except.ok.injEq, Prod.mk.injEq] at h
      exact ⟨h.2.symm, h.1 ▸ hv⟩

theorem yields_word {Q : Raw → Prop} {t : List Char} {v : Raw} (h : Word v t) (hv : Q v) :
    Yields Q t :=
  yields_token (written_head (.word h)) hv fun fuel rest _ => scanValue_word fuel rest h

theorem yields_numeral {Q : Raw → Prop} {t : List Char} {v : Raw} (h : Numeral v t) (hv : Q v) :
    Yields Q t :=
  yields_token (written_head (.numeral h)) hv fun fuel _ hrest => scanValue_numeral fuel h hrest

theorem yields_text {Q : Raw → Prop} (s : List Char) (hv : Q (.text (String.ofList s))) :
    Yields Q (Text.quoteAscii s) := by
  refine yields_token ⟨_, _, rfl, by decide, by decide, by decide⟩ hv fun fuel rest _ => ?_
  simp only [Text.quoteAscii, List.cons_append, List.append_assoc, List.nil_append]
  rw [scanValue, scanString_body _ _ (stringBody_ascii s)]
  rfl

theorem Yields.skipBlanks_append {Q : Raw → Prop} {t : List Char} (h : Yields Q t)
    (rest : List Char) : skipBlanks (t ++ rest) = t ++ rest := by
  obtain ⟨c, cs, rfl, hc, -⟩ := h.head
  exact Json.skipBlanks_append (w := []) (by decide) hc

theorem ends_separated {ts : List (List Char)} {close : Char} (rest : List Char)
    (hclose : close.isDigit = false ∧ close ≠ '.' ∧ close ≠ 'e' ∧ close ≠ 'E') :
    Ends (ts.flatMap ([','] ++ ·) ++ close :: rest) := by
  cases ts with
  | nil => simpa [Ends] using hclose
  | cons t ts => simp [Ends]

theorem scanItems_yields {Q : Raw → Prop} {rest left : List Char} : ∀ {t : List Char}
    {ts : List (List Char)} {fuel : Nat} {items : List Raw}, Yields Q t → (∀ t ∈ ts, Yields Q t) →
    scanItems fuel (t ++ (ts.flatMap ([','] ++ ·) ++ ']' :: rest)) = .ok (items, left) →
    left = rest ∧ ∀ item ∈ items, Q item
  | _, _, 0, _, _, _, h => by cases h
  | t, ts, fuel + 1, items, ht, hts, h => by
    rw [scanItems] at h
    obtain ⟨⟨item, after⟩, hitem, h⟩ := bind_ok h
    obtain ⟨rfl, hQ⟩ := ht.read (ends_separated rest (by decide)) hitem
    cases ts with
    | nil =>
      have hskip : skipBlanks (']' :: rest) = ']' :: rest := rfl
      simp only [List.flatMap_nil, List.nil_append, hskip] at h
      obtain ⟨rfl, rfl⟩ := Prod.mk.inj (Except.ok.inj h)
      exact ⟨rfl, by simpa using hQ⟩
    | cons next ts =>
      obtain ⟨hnext, hts⟩ := List.forall_mem_cons.mp hts
      have hskip : ∀ more, skipBlanks (',' :: more) = ',' :: more := fun _ => rfl
      simp only [List.flatMap_cons, List.cons_append, List.nil_append, List.append_assoc, hskip,
        hnext.skipBlanks_append] at h
      obtain ⟨⟨others, last⟩, hothers, h⟩ := bind_ok h
      obtain ⟨rfl, rfl⟩ := Prod.mk.inj (Except.ok.inj h)
      obtain ⟨hleft, hrest⟩ := scanItems_yields hnext hts hothers
      exact ⟨hleft, List.forall_mem_cons.mpr ⟨hQ, hrest⟩⟩

theorem yields_list {ts : List (List Char)} (h : ∀ t ∈ ts, Yields (Raw.Keys P) t) :
    Yields (Raw.Keys P) ('[' :: sepBy [','] ts ++ [']']) where
  head := ⟨_, _, rfl, by decide, by decide, by decide⟩
  read := by
    intro fuel rest left v _ hscan
    cases fuel with
    | zero => cases hscan
    | succ fuel =>
      cases ts with
      | nil =>
        have hempty : scanValue (fuel + 1) ('[' :: ']' :: rest) = .ok (.list [], rest) := rfl
        obtain ⟨rfl, rfl⟩ := Prod.mk.inj (Except.ok.inj (hempty.symm.trans hscan))
        exact ⟨rfl, trivial⟩
      | cons t ts =>
        obtain ⟨ht, hts⟩ := List.forall_mem_cons.mp h
        rw [sepBy_cons] at hscan
        simp only [List.cons_append, List.append_assoc, List.nil_append] at hscan
        rw [scanValue, ht.skipBlanks_append] at hscan
        obtain ⟨c, cs, rfl, -, hc, -⟩ := ht.head
        split at hscan
        · rename_i heq
          exact absurd (List.cons.inj heq).1 hc
        · obtain ⟨⟨items, after⟩, hitems, hscan⟩ := bind_ok hscan
          obtain ⟨rfl, rfl⟩ := Prod.mk.inj (Except.ok.inj hscan)
          obtain ⟨hleft, hkeys⟩ := scanItems_yields ht hts hitems
          exact ⟨hleft, (itemsKeys_iff items).mpr hkeys⟩

/-- The text of a member of a map. -/
def memberText (member : String × List Char) : List Char :=
  Text.quoteAscii member.1.toList ++ ':' :: member.2

theorem scanMembers_yields {rest left : List Char} : ∀ {member : String × List Char}
    {members : List (String × List Char)} {fuel : Nat} {entries found : List (String × Raw)},
    P member.1 ∧ Yields (Raw.Keys P) member.2 →
    (∀ member ∈ members, P member.1 ∧ Yields (Raw.Keys P) member.2) → entriesKeys P entries →
    scanMembers fuel entries (memberText member
      ++ ((members.map memberText).flatMap ([','] ++ ·) ++ '\x7d' :: rest)) = .ok (found, left) →
    left = rest ∧ entriesKeys P found
  | _, _, 0, _, _, _, _, _, h => by cases h
  | (key, t), members, fuel + 1, entries, found, hmember, hmembers, hentries, h => by
    have hcolon : ∀ more, skipBlanks (':' :: more) = ':' :: more := fun _ => rfl
    have hcomma : ∀ more, skipBlanks (',' :: more) = ',' :: more := fun _ => rfl
    have hbrace : ∀ more, skipBlanks ('\x7d' :: more) = '\x7d' :: more := fun _ => rfl
    simp only [memberText, Text.quoteAscii, List.cons_append, List.append_assoc, List.nil_append]
      at h
    rw [scanMembers, scanString_body _ _ (stringBody_ascii key.toList)] at h
    simp only [ok_bind, hcolon, hmember.2.skipBlanks_append, String.ofList_toList] at h
    obtain ⟨⟨value, after⟩, hvalue, h⟩ := bind_ok h
    obtain ⟨rfl, hkeys⟩ := hmember.2.read (ends_separated rest (by decide)) hvalue
    have hentries' := entriesKeys_insert hentries hmember.1 hkeys
    cases members with
    | nil =>
      simp only [List.map_nil, List.flatMap_nil, List.nil_append, hbrace] at h
      obtain ⟨rfl, rfl⟩ := Prod.mk.inj (Except.ok.inj h)
      exact ⟨rfl, hentries'⟩
    | cons next members =>
      obtain ⟨hnext, hmembers⟩ := List.forall_mem_cons.mp hmembers
      have hskip : ∀ more, skipBlanks (memberText next ++ more) = memberText next ++ more :=
        fun _ => rfl
      simp only [List.map_cons, List.flatMap_cons, List.cons_append, List.nil_append,
        List.append_assoc, hcomma, hskip] at h
      exact scanMembers_yields hnext hmembers hentries' h

theorem yields_map {members : List (String × List Char)}
    (h : ∀ member ∈ members, P member.1 ∧ Yields (Raw.Keys P) member.2) :
    Yields (Raw.Keys P) ('\x7b' :: sepBy [','] (members.map memberText) ++ ['\x7d']) where
  head := ⟨_, _, rfl, by decide, by decide, by decide⟩
  read := by
    intro fuel rest left v _ hscan
    cases fuel with
    | zero => cases hscan
    | succ fuel =>
      cases members with
      | nil =>
        have hempty : scanValue (fuel + 1) ('\x7b' :: '\x7d' :: rest) = .ok (.map [], rest) := rfl
        obtain ⟨rfl, rfl⟩ := Prod.mk.inj (Except.ok.inj (hempty.symm.trans hscan))
        exact ⟨rfl, trivial⟩
      | cons member members =>
        obtain ⟨hmember, hmembers⟩ := List.forall_mem_cons.mp h
        have hskip : ∀ more, skipBlanks (memberText member ++ more) = memberText member ++ more :=
          fun _ => rfl
        rw [List.map_cons, sepBy_cons] at hscan
        simp only [List.cons_append, List.append_assoc, List.nil_append] at hscan
        rw [scanValue, hskip] at hscan
        obtain ⟨⟨found, after⟩, hfound, hscan⟩ := bind_ok hscan
        obtain ⟨rfl, rfl⟩ := Prod.mk.inj (Except.ok.inj hscan)
        have hempty : entriesKeys P [] := trivial
        exact scanMembers_yields hmember hmembers hempty hfound

end Results

section CanonicalTexts

theorem mem_collect {α β : Type} {a : α} {b : β} : ∀ {rows : List (α × Except UnsupportedValue β)}
    {parts : List (α × β)}, Node.collect rows = .ok parts → (a, b) ∈ parts → (a, .ok b) ∈ rows
  | [], _, h, hmem => by
    rw [← Except.ok.inj h] at hmem
    cases hmem
  | (first, result) :: rows, _, h, hmem => by
    obtain ⟨value, hvalue, h⟩ := bind_ok h
    obtain ⟨rest, hrest, h⟩ := bind_ok h
    rw [← Except.ok.inj h] at hmem
    rcases List.mem_cons.mp hmem with heq | hmem
    · obtain ⟨rfl, rfl⟩ := Prod.mk.inj heq
      rw [hvalue]
      exact List.mem_cons_self ..
    · exact List.mem_cons_of_mem _ (mem_collect hrest hmem)

theorem yields_scalar : ∀ {s : Scalar} {t : List Char}, s.canonical = .ok t →
    Yields (Raw.Keys P) t
  | .null, _, h => Except.ok.inj h ▸ yields_word .null trivial
  | .bool true, _, h => Except.ok.inj h ▸ yields_word .true trivial
  | .bool false, _, h => Except.ok.inj h ▸ yields_word .false trivial
  | .int _, _, h => by
    obtain ⟨hdigits, rfl⟩ := canonical_int_ok h
    exact yields_numeral (numeral_intText hdigits) trivial
  | .float x, _, h => by
    rw [Scalar.canonical] at h
    split_ifs at h with hfinite
    exact Except.ok.inj h ▸ yields_numeral (numeral_text hfinite) trivial
  | .text s, _, h => Except.ok.inj h ▸ yields_text s.toList trivial
  | .foreign _, _, h => by cases h

mutual

theorem yields_canonical : ∀ {node : Node} {t : List Char}, node.Keys P →
    node.canonicalChars = .ok t → Yields (Raw.Keys P) t
  | .scalar _, _, _, ht => yields_scalar ht
  | .list items, _, h, ht => by
    obtain ⟨parts, hparts, ht⟩ := bind_ok ht
    rw [← Except.ok.inj ht]
    exact yields_list (yields_canonicalList items h hparts)
  | .map entries, _, h, ht => by
    obtain ⟨parts, hparts, ht⟩ := bind_ok ht
    rw [← Except.ok.inj ht]
    exact yields_map fun member hmember =>
      yields_canonicalEntries entries h (mem_sortEntries.mp (mem_collect hparts hmember))
  | .stray _, _, _, ht => by cases ht

theorem yields_canonicalList : ∀ (nodes : List Node) {parts : List (List Char)},
    nodesKeys P nodes → Node.canonicalList nodes = .ok parts →
    ∀ t ∈ parts, Yields (Raw.Keys P) t
  | [], _, _, hparts => by
    rw [← Except.ok.inj hparts]
    exact fun _ h => absurd h List.not_mem_nil
  | node :: nodes, _, h, hparts => by
    obtain ⟨part, hpart, hparts⟩ := bind_ok hparts
    obtain ⟨rest, hrest, hparts⟩ := bind_ok hparts
    rw [← Except.ok.inj hparts]
    exact List.forall_mem_cons.mpr
      ⟨yields_canonical h.1 hpart, yields_canonicalList nodes h.2 hrest⟩

theorem yields_canonicalEntries : ∀ (body : Body) {key : String} {t : List Char},
    bodyKeys P body → (key, .ok t) ∈ Node.canonicalEntries body →
    P key ∧ Yields (Raw.Keys P) t
  | [], _, _, _, hmem => absurd hmem List.not_mem_nil
  | (key, node) :: body, _, _, h, hmem => by
    rw [Node.canonicalEntries] at hmem
    rcases List.mem_cons.mp hmem with heq | hmem
    · obtain ⟨rfl, ht⟩ := Prod.mk.inj heq
      exact ⟨h.1, yields_canonical h.2.1 ht.symm⟩
    · exact yields_canonicalEntries body h.2.2 hmem

end

/-- The keys that are read in a canonical text are those of the node. -/
theorem decode_keys {node : Node} {text : String} {v : Raw} (h : node.Keys P)
    (htext : node.canonical = .ok text) (hdecode : decode text.toList = .ok v) : v.Keys P := by
  obtain ⟨t, ht, rfl⟩ := map_ok htext
  have hyields := yields_canonical h ht
  have hskip := hyields.skipBlanks_append []
  rw [String.toList_ofList] at hdecode
  obtain ⟨left, hfirst⟩ := decodeFirst_of_decode hdecode
  rw [← List.append_nil t, hskip, decodeFirst] at hfirst
  exact (hyields.read (by simp [Ends]) hfirst).2

end CanonicalTexts

end Lemmas

end TerraIndex
