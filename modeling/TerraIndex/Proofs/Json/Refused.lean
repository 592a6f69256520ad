import TerraIndex.Proofs.Document.Decoded
import TerraIndex.Proofs.Json.Spaced
/-!
# What the decoder refuses

Whatever the decoder reads in the tokens of a value is that value (`reads_value`). As it reads
documents only, it refuses a value with an integer of too many digits at any depth
(`decodeFirst_spaced`).
-/

namespace TerraIndex

open Json

/-- The tokens begin with one of the marks, if there are any. -/
def Leads (marks : List Char) (ks : List Token) : Prop :=
  ∀ k ∈ ks.head?, ∃ c ∈ marks, k = .mark c

/-- What can follow a value. -/
def Follows (ks : List Token) : Prop := Leads [',', ']', '\x7d'] ks

theorem leads_mark {marks : List Char} {c : Char} (ks : List Token) (hc : c ∈ marks) :
    Leads marks (.mark c :: ks) := fun _ hk => ⟨c, hc, (Option.some.inj hk).symm⟩

theorem follows_items (items : List Raw) (ks : List Token) : Follows (itemTokens items ++ ks) := by
  cases items with
  | nil => exact leads_mark ks (by decide)
  | cons item items => exact leads_mark _ (by decide)

theorem follows_entries (entries : List (String × Raw)) (ks : List Token) :
    Follows (entryTokens entries ++ ks) := by
  cases entries with
  | nil => exact leads_mark ks (by decide)
  | cons entry entries => exact leads_mark _ (by decide)

theorem Leads.head {marks : List Char} {ks : List Token} {t : List Char} (hks : Leads marks ks)
    (h : Spaced ks t) : ∀ c ∈ t.head?, c ∈ marks ∨ isBlank c = true := by
  cases h with
  | nil hw => exact fun c hc => .inr (hw c (List.mem_of_head? hc)).1
  | @cons k ks w s t hw hk ht =>
    obtain ⟨d, hd, rfl⟩ := hks k rfl
    cases hk
    cases w with
    | nil => exact fun c hc => .inl (Option.some.inj hc ▸ hd)
    | cons b w =>
      obtain ⟨hb, -⟩ := List.forall_mem_cons.mp hw
      exact fun c hc => .inr (Option.some.inj hc ▸ hb.1)

theorem Follows.ends {ks : List Token} {rest : List Char} (hks : Follows ks)
    (h : Spaced ks rest) : Ends rest := by
  intro c hc
  rcases hks.head h c hc with hmark | hblank
  · exact (by decide : ∀ c ∈ [',', ']', '\x7d'],
      c.isDigit = false ∧ c ≠ '.' ∧ c ≠ 'e' ∧ c ≠ 'E') c hmark
  · simp only [isBlank, Bool.or_eq_true, beq_iff_eq] at hblank
    rcases hblank with ((rfl | rfl) | rfl) | rfl <;> decide

section Results

theorem isBlank_text {c : Char} (h : isBlank c = true) : Text.isBlank c = true := by
  simp only [isBlank, Bool.or_eq_true, beq_iff_eq] at h
  rcases h with ((rfl | rfl) | rfl) | rfl <;> decide

/-- The text begins with neither white space nor a closing bracket. -/
def Begins (t : List Char) : Prop :=
  ∃ c cs, t = c :: cs ∧ Text.isBlank c = false ∧ c ∉ [']', '\x7d']

theorem Begins.skipBlanks {w t : List Char} (hw : Spaces w) (ht : Begins t) :
    skipBlanks (w ++ t) = t := by
  obtain ⟨c, cs, rfl, hc, -⟩ := ht
  refine skipBlanks_append hw.blanks (Bool.eq_false_iff.mpr fun hblank => ?_)
  rw [isBlank_text hblank] at hc
  cases hc

theorem Begins.append {t : List Char} (ht : Begins t) (rest : List Char) : Begins (t ++ rest) := by
  obtain ⟨c, cs, rfl, hc⟩ := ht
  exact ⟨c, cs ++ rest, rfl, hc⟩

/-- Behind white space, `scan` reads nothing but the given result, up to the remaining tokens. -/
def Reads {α : Type} (scan : Nat → List Char → Except Halt (α × List Char)) (a : α)
    (ks : List Token) (t : List Char) : Prop :=
  ∃ w s rest, t = w ++ s ∧ Spaces w ∧ Begins s ∧ Spaced ks rest
    ∧ ∀ {fuel : Nat} {b : α} {left : List Char}, scan fuel s = .ok (b, left) → b = a ∧ left = rest

/-- Nothing else is read in the tokens of the value. -/
def Raw.IsRead (v : Raw) : Prop := ∀ {ks : List Token} {t : List Char}, Follows ks →
  Spaced (v.tokens ++ ks) t → Reads scanValue v ks t

theorem Reads.succ {α : Type} {scan : Nat → List Char → Except Halt (α × List Char)} {a : α}
    {ks : List Token} {w s rest : List Char} (hw : Spaces w) (hs : Begins s)
    (hrest : Spaced ks rest) (hzero : ∀ found, scan 0 s ≠ .ok found)
    (h : ∀ {fuel : Nat} {b : α} {left : List Char}, scan (fuel + 1) s = .ok (b, left) →
      b = a ∧ left = rest) : Reads scan a ks (w ++ s) := by
  refine ⟨w, s, rest, rfl, hw, hs, hrest, fun {fuel _ _} hscan => ?_⟩
  cases fuel with
  | zero => exact absurd hscan (hzero _)
  | succ fuel => exact h hscan

theorem reads_token {v : Raw} {ks : List Token} {w s rest : List Char} (hw : Spaces w)
    (hs : Begins s) (hrest : Spaced ks rest)
    (hscan : ∀ fuel, scanValue (fuel + 1) (s ++ rest) = .ok (v, rest)) :
    Reads scanValue v ks (w ++ (s ++ rest)) := by
  refine .succ hw (hs.append rest) hrest nofun fun {fuel _ _} h => ?_
  rw [hscan, Except.ok.injEq, Prod.mk.injEq] at h
  exact ⟨h.1.symm, h.2.symm⟩

theorem begins_digit {t : List Char}
    (h : ∃ c cs, c.isDigit = true ∧ (t = c :: cs ∨ t = '-' :: c :: cs)) : Begins t := by
  obtain ⟨c, cs, hc, rfl | rfl⟩ := h
  · refine ⟨c, cs, rfl, Indent.isBlank_of_isDigit hc, fun hmem => ?_⟩
    exact (by decide : ∀ c ∈ [']', '\x7d'], c.isDigit ≠ true) c hmem hc
  · exact ⟨_, _, rfl, by decide, by decide⟩

theorem isRead_leaf {v : Raw} (htokens : v.tokens = [.leaf v]) : v.IsRead := by
  intro ks t hks h
  rw [htokens] at h
  cases h with
  | @cons _ _ w s rest hw hk hrest =>
    have hends := hks.ends hrest
    cases hk with
    | word hs =>
      have hbegins : Begins s := by cases hs <;> exact ⟨_, _, rfl, by decide, by decide⟩
      exact reads_token hw hbegins hrest fun fuel => scanValue_word fuel rest hs
    | numeral hs =>
      exact reads_token hw (begins_digit (numeral_head hs)) hrest fun fuel =>
        scanValue_numeral fuel hs hends
    | @long n hlong =>
      obtain ⟨negative, htext, -⟩ := intText_eq n
      obtain ⟨c, cs, hdigits, hc⟩ := whole_head (whole_repr n.natAbs)
      have hbegins : Begins (intText n) := by
        rw [htext, hdigits]
        exact begins_digit ⟨c, cs, hc, by cases negative <;> simp [minusText]⟩
      refine .succ hw (hbegins.append rest) hrest (fun _ h => by cases h)
        fun {fuel _ _} hscan => ?_
      rw [htext, scanValue_long fuel negative (whole_repr n.natAbs) hlong hends] at hscan
      cases hscan

theorem isRead_text (s : String) : (Raw.text s).IsRead := by
  intro ks t _ h
  cases h with
  | @cons _ _ w q rest hw hq hrest =>
    obtain ⟨body, hbody, rfl⟩ := hq.body
    refine reads_token hw ⟨_, _, rfl, by decide, by decide⟩ hrest fun fuel => ?_
    simp only [List.cons_append, List.append_assoc, List.nil_append]
    rw [scanValue, scanString_body _ _ hbody]
    simp only [ok_bind, String.ofList_toList]
    rfl

end Results

section ListsAndMaps

theorem reads_items {ks : List Token} : ∀ {items : List Raw} {item : Raw} {t : List Char},
    item.IsRead → (∀ other ∈ items, other.IsRead) →
    Spaced (item.tokens ++ (itemTokens items ++ ks)) t → Reads scanItems (item :: items) ks t
  | [], item, _, hitem, _, h => by
    obtain ⟨w, s, rest, rfl, hw, hs, hrest, hread⟩ := hitem (follows_items [] ks) h
    obtain ⟨w', last, rfl, hw', hlast⟩ := Spaced.of_mark hrest
    refine .succ hw hs hlast nofun fun {fuel _ _} hscan => ?_
    rw [scanItems] at hscan
    obtain ⟨⟨value, after⟩, hvalue, hscan⟩ := bind_ok hscan
    obtain ⟨rfl, rfl⟩ := hread hvalue
    simp only [skipBlanks_append hw'.blanks (by decide : isBlank ']' = false)] at hscan
    obtain ⟨rfl, rfl⟩ := Prod.mk.inj (Except.ok.inj hscan)
    exact ⟨rfl, rfl⟩
  | next :: items, item, _, hitem, hitems, h => by
    obtain ⟨hnext, hitems⟩ := List.forall_mem_cons.mp hitems
    obtain ⟨w, s, rest, rfl, hw, hs, hrest, hread⟩ := hitem (follows_items (next :: items) ks) h
    rw [itemTokens, List.cons_append, List.append_assoc] at hrest
    obtain ⟨w', t, rfl, hw', ht⟩ := Spaced.of_mark hrest
    obtain ⟨w₂, s₂, last, rfl, hw₂, hs₂, hlast, hreadItems⟩ := reads_items hnext hitems ht
    refine .succ hw hs hlast nofun fun {fuel _ _} hscan => ?_
    rw [scanItems] at hscan
    obtain ⟨⟨value, after⟩, hvalue, hscan⟩ := bind_ok hscan
    obtain ⟨rfl, rfl⟩ := hread hvalue
    simp only [skipBlanks_append hw'.blanks (by decide : isBlank ',' = false),
      hs₂.skipBlanks hw₂] at hscan
    obtain ⟨⟨others, left⟩, hothers, hscan⟩ := bind_ok hscan
    obtain ⟨rfl, rfl⟩ := hreadItems hothers
    obtain ⟨rfl, rfl⟩ := Prod.mk.inj (Except.ok.inj hscan)
    exact ⟨rfl, rfl⟩

theorem isRead_list {items : List Raw} (h : ∀ item ∈ items, item.IsRead) :
    (Raw.list items).IsRead := by
  intro ks t _ ht
  cases items with
  | nil =>
    obtain ⟨w, t, rfl, hw, ht⟩ := Spaced.of_mark ht
    obtain ⟨w', rest, rfl, hw', hrest⟩ := Spaced.of_mark ht
    refine .succ hw ⟨_, _, rfl, by decide, by decide⟩ hrest nofun fun {fuel _ _} hscan => ?_
    rw [scanValue, skipBlanks_append hw'.blanks (by decide)] at hscan
    obtain ⟨rfl, rfl⟩ := Prod.mk.inj (Except.ok.inj hscan)
    exact ⟨rfl, rfl⟩
  | cons item items =>
    obtain ⟨hitem, hitems⟩ := List.forall_mem_cons.mp h
    rw [Raw.tokens, List.cons_append, List.append_assoc] at ht
    obtain ⟨w, t, rfl, hw, ht⟩ := Spaced.of_mark ht
    obtain ⟨w', s, rest, rfl, hw', hs, hrest, hread⟩ := reads_items hitem hitems ht
    refine .succ hw ⟨_, _, rfl, by decide, by decide⟩ hrest nofun fun {fuel _ _} hscan => ?_
    rw [scanValue, hs.skipBlanks hw'] at hscan
    obtain ⟨c, cs, rfl, -, hc⟩ := hs
    split at hscan
    · rename_i heq
      obtain ⟨rfl, -⟩ := List.cons.inj heq
      exact absurd List.mem_cons_self hc
    · obtain ⟨⟨found, left⟩, hfound, hscan⟩ := bind_ok hscan
      obtain ⟨rfl, rfl⟩ := hread hfound
      obtain ⟨rfl, rfl⟩ := Prod.mk.inj (Except.ok.inj hscan)
      exact ⟨rfl, rfl⟩

/-- What is read of a member: its value, and then the end or the next member. -/
theorem reads_member {ks : List Token} {key : String} {value : Raw} {t : List Char}
    (entries : List (String × Raw)) (hvalue : value.IsRead) (hks : Follows ks)
    (h : Spaced (.text key :: .mark ':' :: (value.tokens ++ ks)) t) :
    ∃ w s rest, t = w ++ s ∧ Spaces w ∧ Begins s ∧ Spaced ks rest
      ∧ ∀ {fuel : Nat} {found : List (String × Raw)} {left : List Char},
        scanMembers (fuel + 1) entries s = .ok (found, left) →
        (skipBlanks rest = '\x7d' :: left ∧ found = insertEntry entries key value)
        ∨ ∃ next, skipBlanks rest = ',' :: next
          ∧ scanMembers fuel (insertEntry entries key value) (skipBlanks next)
            = .ok (found, left) := by
  obtain ⟨w, q, w', t, rfl, hw, hq, hw', ht⟩ := h.of_key
  obtain ⟨body, hbody, rfl⟩ := hq.body
  obtain ⟨w₂, s, rest, rfl, hw₂, hs, hrest, hread⟩ := hvalue hks ht
  refine ⟨w, _, rest, rfl, hw, ⟨_, _, rfl, by decide, by decide⟩, hrest,
    fun {fuel _ _} hscan => ?_⟩
  simp only [List.cons_append, List.append_assoc, List.nil_append] at hscan
  rw [scanMembers, scanString_body _ _ hbody] at hscan
  simp only [ok_bind, skipBlanks_append hw'.blanks (by decide : isBlank ':' = false),
    hs.skipBlanks hw₂, String.ofList_toList] at hscan
  obtain ⟨⟨found, after⟩, hfound, hscan⟩ := bind_ok hscan
  obtain ⟨rfl, rfl⟩ := hread hfound
  simp only at hscan
  split at hscan
  · rename_i hend
    obtain ⟨rfl, rfl⟩ := Prod.mk.inj (Except.ok.inj hscan)
    exact .inl ⟨hend, rfl⟩
  · rename_i next hnext
    exact .inr ⟨next, hnext, hscan⟩
  · cases hscan

/-- Members are added to those read before. -/
theorem reads_members {ks : List Token} : ∀ {members : List (String × Raw)} {key : String}
    {value : Raw} {t : List Char} (entries : List (String × Raw)), value.IsRead →
    (∀ member ∈ members, member.2.IsRead) →
    Spaced (.text key :: .mark ':' :: (value.tokens ++ (entryTokens members ++ ks))) t →
    Reads (scanMembers · entries) (mergeEntries entries ((key, value) :: members)) ks t
  | [], key, value, _, entries, hvalue, _, h => by
    obtain ⟨w, s, rest, rfl, hw, hs, hrest, hread⟩ :=
      reads_member entries hvalue (follows_entries [] ks) h
    obtain ⟨w', last, rfl, hw', hlast⟩ := Spaced.of_mark hrest
    refine .succ hw hs hlast nofun fun {fuel _ _} hscan => ?_
    simp only [skipBlanks_append hw'.blanks (by decide : isBlank '\x7d' = false)] at hread
    obtain ⟨hend, rfl⟩ | ⟨_, hnext, -⟩ := hread hscan
    · exact ⟨rfl, (List.cons.inj hend).2.symm⟩
    · exact absurd (List.cons.inj hnext).1 (by decide)
  | (nextKey, next) :: members, key, value, _, entries, hvalue, hmembers, h => by
    obtain ⟨hnext, hmembers⟩ := List.forall_mem_cons.mp hmembers
    obtain ⟨w, s, rest, rfl, hw, hs, hrest, hread⟩ :=
      reads_member entries hvalue (follows_entries ((nextKey, next) :: members) ks) h
    rw [entryTokens, List.cons_append, List.cons_append, List.cons_append, List.append_assoc]
      at hrest
    obtain ⟨w', t, rfl, hw', ht⟩ := Spaced.of_mark hrest
    obtain ⟨w₂, s₂, last, rfl, hw₂, hs₂, hlast, hreadMembers⟩ :=
      reads_members (insertEntry entries key value) hnext hmembers ht
    refine .succ hw hs hlast nofun fun {fuel _ _} hscan => ?_
    simp only [skipBlanks_append hw'.blanks (by decide : isBlank ',' = false)] at hread
    obtain ⟨hend, -⟩ | ⟨_, hcomma, hscan⟩ := hread hscan
    · exact absurd (List.cons.inj hend).1 (by decide)
    · rw [← (List.cons.inj hcomma).2, hs₂.skipBlanks hw₂] at hscan
      exact hreadMembers hscan

theorem isRead_map {entries : List (String × Raw)} (hkeys : (entries.map Prod.fst).Nodup)
    (h : ∀ entry ∈ entries, entry.2.IsRead) : (Raw.map entries).IsRead := by
  intro ks t _ ht
  cases entries with
  | nil =>
    obtain ⟨w, t, rfl, hw, ht⟩ := Spaced.of_mark ht
    obtain ⟨w', rest, rfl, hw', hrest⟩ := Spaced.of_mark ht
    refine .succ hw ⟨_, _, rfl, by decide, by decide⟩ hrest nofun fun {fuel _ _} hscan => ?_
    rw [scanValue, skipBlanks_append hw'.blanks (by decide)] at hscan
    obtain ⟨rfl, rfl⟩ := Prod.mk.inj (Except.ok.inj hscan)
    exact ⟨rfl, rfl⟩
  | cons entry entries =>
    obtain ⟨hvalue, hentries⟩ := List.forall_mem_cons.mp h
    rw [Raw.tokens, List.cons_append, List.cons_append, List.cons_append, List.append_assoc] at ht
    obtain ⟨w, t, rfl, hw, ht⟩ := Spaced.of_mark ht
    obtain ⟨w', s, rest, rfl, hw', hs, hrest, hread⟩ := reads_members [] hvalue hentries ht
    refine .succ hw ⟨_, _, rfl, by decide, by decide⟩ hrest nofun fun {fuel _ _} hscan => ?_
    rw [scanValue, hs.skipBlanks hw'] at hscan
    obtain ⟨c, cs, rfl, -, hc⟩ := hs
    split at hscan
    · rename_i heq
      obtain ⟨rfl, -⟩ := List.cons.inj heq
      exact absurd (List.mem_cons_of_mem _ List.mem_cons_self) hc
    · obtain ⟨⟨found, left⟩, hfound, hscan⟩ := bind_ok hscan
      obtain ⟨rfl, rfl⟩ := hread hfound
      obtain ⟨rfl, rfl⟩ := Prod.mk.inj (Except.ok.inj hscan)
      exact ⟨congrArg _ (mergeEntries_distinct hkeys), rfl⟩

/-- In the tokens of a value, nothing is read but the value. -/
theorem Raw.IsJson.isRead {v : Raw} (h : v.IsJson) : v.IsRead := by
  induction v using Raw.nested with
  | leaf v hleaf =>
    cases v with
    | list | tuple | map => simp [Raw.isNested] at hleaf
    | text s => exact isRead_text s
    | other => exact h.elim
    | _ => exact isRead_leaf rfl
  | list items ih =>
    exact isRead_list fun item hitem => ih item hitem ((itemsAreJson_iff items).mp h item hitem)
  | tuple => exact h.elim
  | map entries ih =>
    exact isRead_map h.1 fun entry hentry =>
      ih entry hentry ((entriesAreJson_iff entries).mp h.2 entry hentry)

/-- The decoder reads a document in its tokens, and it refuses those of any other value. -/
theorem decodeFirst_spaced {v : Raw} {ks : List Token} {t : List Char} (hjson : v.IsJson)
    (hks : Follows ks) (h : Spaced (v.tokens ++ ks) t) :
    ∃ w s rest, t = w ++ s ∧ Spaces w ∧ Begins s ∧ Spaced ks rest
      ∧ if v.IsDocument then decodeFirst s = .ok (v, rest)
        else ∃ halt, decodeFirst s = .error halt := by
  obtain ⟨w, s, rest, rfl, hw, hs, hrest, hread⟩ := hjson.isRead hks h
  refine ⟨w, s, rest, rfl, hw, hs, hrest, ?_⟩
  split_ifs with hdoc
  · obtain ⟨w', s', rest', htext, hw', hs', hrest'⟩ := spaced_value v hdoc h
    have hvalue : decodeFirst (s' ++ rest') = .ok (v, rest') :=
      scanValue_written _ rest' hs' (by rw [List.length_append]; omega) (hks.ends hrest')
    obtain ⟨c, cs, rfl, hc, -⟩ := written_head hs'
    have hskip := congrArg skipBlanks htext
    rw [hs.skipBlanks hw, List.cons_append, skipBlanks_append hw'.blanks hc] at hskip
    rw [hskip] at hread ⊢
    obtain ⟨-, rfl⟩ := hread hvalue
    exact hvalue
  · cases hfirst : decodeFirst s with
    | error halt => exact ⟨halt, rfl⟩
    | ok found =>
      obtain ⟨rfl, -⟩ := hread hfirst
      exact absurd (isDocument_scanValue _ hfirst) hdoc

end ListsAndMaps

end TerraIndex
