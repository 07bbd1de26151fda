import IsaCloud.Support.JsonRoundTrip
import Mathlib.Data.List.TakeWhile

/-!
# What `json.loads` accepts is well formed

Text decoded from UTF-8 holds no surrogates, so a surrogate in a value comes
from an escape, and an escaped pair has been joined. With that, and because a
later member replaces an earlier one of the same key, every value `loads`
returns is well formed.
-/

namespace Support.Json

set_option autoImplicit false

open Text Python

/-- Text without surrogates, as a UTF-8 decoder returns it. -/
def Plain (s : Str) : Prop := ∀ c ∈ s, isHigh c.val = false ∧ isLow c.val = false

theorem Plain.suffix {s t : Str} (h : Plain s) (hs : t <:+ s) : Plain t :=
  fun c hc => h c (hs.subset hc)

theorem splitFree_of_plain {s : Str} (h : Plain s) : splitFree s = true := by
  induction s with
  | nil => rfl
  | cons a s ih =>
    cases s with
    | nil => rfl
    | cons b s =>
      have hs := ih fun c hc => h c (List.mem_cons_of_mem a hc)
      simp only [splitFree, (h a List.mem_cons_self).1, Bool.false_and, Bool.not_false,
        Bool.true_and, hs]

theorem skipSpace_suffix (s : Str) : skipSpace s <:+ s := List.dropWhile_suffix _

/-! ## Strings -/

theorem hexValue_lt {c : CodePoint} {n : Nat} (h : hexValue c = some n) : n < 16 := by
  unfold hexValue at h
  split at h
  · cases h
    omega
  · split at h
    · cases h
      omega
    · split at h
      · cases h
        omega
      · cases h

theorem hex4Value_lt {a b c d : CodePoint} {u : Nat} (h : hex4Value a b c d = some u) :
    u < 65536 := by
  unfold hex4Value at h
  split at h
  · rename_i ha hb hc hd
    have := hexValue_lt ha
    have := hexValue_lt hb
    have := hexValue_lt hc
    have := hexValue_lt hd
    cases h
    omega
  · cases h

theorem scanUnit_spec {s rest : Str} {u : Nat} (h : scanUnit s = some (u, rest)) :
    u < 65536 ∧ rest <:+ s := by
  unfold scanUnit at h
  split at h
  · rename_i h₁ h₂ h₃ h₄ tail
    obtain ⟨v, hv, heq⟩ := Option.map_eq_some_iff.mp h
    cases heq
    exact ⟨hex4Value_lt hv, ⟨[h₁, h₂, h₃, h₄], rfl⟩⟩
  · cases h

theorem scanLowSurrogate_some {s rest : Str} {lo : Nat}
    (h : scanLowSurrogate s = .ok (some (lo, rest))) : isLow lo = true ∧ rest <:+ s := by
  unfold scanLowSurrogate at h
  split at h
  · rename_i b v tail
    split at h
    · split at h
      · cases h
      · rename_i lo' rest' hu
        by_cases hlow : isLow lo' = true
        · simp only [hlow, if_true, Except.ok.injEq, Option.some.injEq, Prod.mk.injEq] at h
          obtain ⟨rfl, rfl⟩ := h
          exact ⟨hlow, (scanUnit_spec hu).2.trans ⟨[b, v], rfl⟩⟩
        · simp [hlow] at h
    · cases h
  · cases h

/-- A surrogate that an escape produces: a low one stands where a pair could not
begin, a high one is not followed by an escaped low one. -/
theorem scanUnicode_spec {s rest : Str} {c : CodePoint} (h : scanUnicode s = .ok (c, rest)) :
    rest <:+ s ∧
      (isLow c.val = true → ∃ lo, scanLowSurrogate (backslash :: letterU :: s) = .ok (some (lo, rest))) ∧
      (isHigh c.val = true → scanLowSurrogate rest = .ok none) := by
  unfold scanUnicode at h
  split at h
  · cases h
  · rename_i u tail hu
    obtain ⟨hlt, hsuf⟩ := scanUnit_spec hu
    have hval : (Fin.ofNat 0x110000 u).val = u := Nat.mod_eq_of_lt (by omega)
    by_cases hhigh : isHigh u = true
    · simp only [hhigh, if_true] at h
      split at h
      · cases h
      · rename_i lo rest' hlow
        obtain ⟨hislow, hsuf'⟩ := scanLowSurrogate_some hlow
        simp only [Except.ok.injEq, Prod.mk.injEq] at h
        obtain ⟨rfl, rfl⟩ := h
        have h1 := of_decide_eq_true hhigh
        have h2 := of_decide_eq_true hislow
        have hjoin : (Fin.ofNat 0x110000 (joinSurrogates u lo)).val = joinSurrogates u lo :=
          Nat.mod_eq_of_lt (by unfold joinSurrogates; omega)
        refine ⟨hsuf'.trans hsuf, ?_, ?_⟩
        · intro hl
          rw [hjoin] at hl
          have := of_decide_eq_true hl
          unfold joinSurrogates at this
          omega
        · intro hh
          rw [hjoin] at hh
          have := of_decide_eq_true hh
          unfold joinSurrogates at this
          omega
      · rename_i hnone
        simp only [Except.ok.injEq, Prod.mk.injEq] at h
        obtain ⟨rfl, rfl⟩ := h
        refine ⟨hsuf, ?_, fun _ => hnone⟩
        intro hl
        rw [hval] at hl
        have h1 := of_decide_eq_true hhigh
        have h2 := of_decide_eq_true hl
        omega
    · simp only [hhigh, Bool.false_eq_true, if_false, Except.ok.injEq, Prod.mk.injEq] at h
      obtain ⟨rfl, rfl⟩ := h
      refine ⟨hsuf, ?_, ?_⟩
      · intro hl
        rw [hval] at hl
        exact ⟨u, by simp [scanLowSurrogate, hu, hl]⟩
      · intro hh
        rw [hval] at hh
        exact absurd hh hhigh

theorem unescape_plain {e c : CodePoint} (h : unescape e = some c) :
    isHigh c.val = false ∧ isLow c.val = false := by
  have hall : shortEscapes.all (fun p => !isHigh p.1.val && !isLow p.1.val) = true := by
    decide
  unfold unescape at h
  split at h
  · rename_i he
    cases h
    subst he
    decide
  · obtain ⟨p, hp, rfl⟩ := Option.map_eq_some_iff.mp h
    simpa using List.all_eq_true.mp hall p (List.mem_of_find?_eq_some hp)

/-- One code point of a string over plain text. -/
theorem scanPoint_spec {s rest : Str} {oc : Option CodePoint} (h : scanPoint s = .ok (oc, rest))
    (hs : Plain s) :
    rest <:+ s ∧ ∀ c, oc = some c →
      (isLow c.val = true → ∃ lo, scanLowSurrogate s = .ok (some (lo, rest))) ∧
      (isHigh c.val = true → scanLowSurrogate rest = .ok none) := by
  unfold scanPoint at h
  split at h
  · cases h
  · rename_i d tail
    split at h
    · cases h
      exact ⟨List.suffix_cons _ _, fun c hc => by cases hc⟩
    · split at h
      · rename_i hb
        subst hb
        split at h
        · rename_i c' rest' hesc
          cases h
          unfold scanEscape at hesc
          split at hesc
          · cases hesc
          · rename_i e tail'
            split at hesc
            · rename_i hu
              subst hu
              obtain ⟨hsuf, hlow, hhigh⟩ := scanUnicode_spec hesc
              refine ⟨hsuf.trans ⟨[backslash, letterU], rfl⟩, ?_⟩
              intro c hc
              cases hc
              exact ⟨hlow, hhigh⟩
            · split at hesc
              · rename_i hun
                cases hesc
                obtain ⟨hh, hl⟩ := unescape_plain hun
                refine ⟨⟨[backslash, e], rfl⟩, ?_⟩
                intro c hc
                cases hc
                exact ⟨fun h' => absurd h' (by simp [hl]), fun h' => absurd h' (by simp [hh])⟩
              · cases hesc
        · cases h
      · split at h
        · cases h
        · cases h
          obtain ⟨hh, hl⟩ := hs d List.mem_cons_self
          refine ⟨List.suffix_cons _ _, ?_⟩
          intro c hc
          cases hc
          exact ⟨fun h' => absurd h' (by simp [hl]), fun h' => absurd h' (by simp [hh])⟩

theorem scanPoints_spec {n : Nat} {s t rest : Str} (h : scanPoints n s = .ok (t, rest))
    (hs : Plain s) :
    rest <:+ s ∧ splitFree t = true ∧
      ∀ c t', t = c :: t' → ∃ rest', scanPoint s = .ok (some c, rest') := by
  induction n generalizing s t rest with
  | zero => cases h
  | succ n ih =>
    unfold scanPoints at h
    split at h
    · cases h
    · rename_i hp
      cases h
      exact ⟨(scanPoint_spec hp hs).1, rfl, fun c t' ht => by cases ht⟩
    · rename_i c tail hp
      obtain ⟨hsuf, hc⟩ := scanPoint_spec hp hs
      obtain ⟨-, hhigh⟩ := hc c rfl
      split at h
      · rename_i t' rest' hps
        cases h
        have hplain := hs.suffix hsuf
        obtain ⟨hsuf', hfree, hfirst⟩ := ih hps hplain
        refine ⟨hsuf'.trans hsuf, ?_, ?_⟩
        · cases t' with
          | nil => rfl
          | cons d t'' =>
            obtain ⟨rest'', hd⟩ := hfirst d t'' rfl
            have hpair : (isHigh c.val && isLow d.val) = false := by
              by_contra hne
              rw [Bool.not_eq_false, Bool.and_eq_true] at hne
              obtain ⟨lo, hlo⟩ := ((scanPoint_spec hd hplain).2 d rfl).1 hne.2
              rw [hhigh hne.1] at hlo
              cases hlo
            simp only [splitFree, hpair, Bool.not_false, Bool.true_and]
            exact hfree
        · intro c' t'' ht
          cases ht
          exact ⟨tail, hp⟩
      · cases h

theorem scanString_spec {s t rest : Str} (h : scanString s = .ok (t, rest)) (hs : Plain s) :
    rest <:+ s ∧ splitFree t = true :=
  ⟨(scanPoints_spec h hs).1, (scanPoints_spec h hs).2.1⟩

/-! ## Numbers -/

theorem scanSign_spec (s : Str) :
    (scanSign s).1 ++ (scanSign s).2 = s ∧ ((scanSign s).1 = [] ∨ (scanSign s).1 = [minus]) := by
  unfold scanSign
  split
  · split
    · rename_i hc
      exact ⟨by rw [hc]; rfl, .inr rfl⟩
    · exact ⟨rfl, .inl rfl⟩
  · exact ⟨rfl, .inl rfl⟩

theorem takeWhile_isDigit (s : Str) : ∀ c ∈ s.takeWhile isDigit, isDigit c = true :=
  fun _ hc => List.mem_takeWhile_imp hc

/-- The integer part is a sign and digits, and the rest follows it. -/
theorem scanInt_spec {s i rest : Str} (h : scanInt s = some (i, rest)) :
    rest <:+ s ∧ ∃ sign ds, i = sign ++ ds ∧ (sign = [] ∨ sign = [minus]) ∧ ds ≠ [] ∧
      ∀ c ∈ ds, isDigit c = true := by
  obtain ⟨hsplit, hsign⟩ := scanSign_spec s
  have hsuf : (scanSign s).2 <:+ s := ⟨_, hsplit⟩
  unfold scanInt at h
  split at h
  · cases h
  · rename_i c tail htail
    rw [htail] at hsuf
    split at h
    · rename_i hz
      cases h
      refine ⟨(List.suffix_cons _ _).trans hsuf, _, _, rfl, hsign, by simp, ?_⟩
      intro d hd
      rw [List.mem_singleton.mp hd, hz]
      decide
    · split at h
      · rename_i hc
        cases h
        refine ⟨(List.dropWhile_suffix _).trans ((List.suffix_cons _ _).trans hsuf), _, _, rfl, hsign,
          by simp, ?_⟩
        intro d hd
        rcases List.mem_cons.mp hd with rfl | hd
        · exact hc
        · exact takeWhile_isDigit _ d hd
      · cases h

theorem scanFraction_suffix (s : Str) : (scanFraction s).2 <:+ s := by
  unfold scanFraction
  split
  · rename_i p d rest
    split
    · exact (List.dropWhile_suffix _).trans ⟨[p, d], rfl⟩
    · exact List.suffix_rfl
  · exact List.suffix_rfl

theorem scanExponent_suffix (s : Str) : (scanExponent s).2 <:+ s := by
  unfold scanExponent
  split
  · rename_i e rest
    split
    · split
      · rename_i d rest₁
        split
        · exact (List.dropWhile_suffix _).trans ⟨[e, d], rfl⟩
        · split
          · split
            · rename_i d' rest₂
              split
              · exact (List.dropWhile_suffix _).trans ⟨[e, d, d'], rfl⟩
              · exact List.suffix_rfl
            · exact List.suffix_rfl
          · exact List.suffix_rfl
      · exact List.suffix_rfl
    · exact List.suffix_rfl
  · exact List.suffix_rfl

theorem digitsValue_lt {ds : Str} (h : ∀ c ∈ ds, isDigit c = true) :
    digitsValue ds < 10 ^ ds.length := by
  induction ds using List.reverseRecOn with
  | nil => decide
  | append_singleton ds d ih =>
    have hd := of_decide_eq_true (h d (by simp))
    have ih := ih fun c hc => h c (by simp [hc])
    rw [digitsValue_append_singleton, List.length_append, List.length_singleton, Nat.pow_succ]
    unfold digitValue
    omega

theorem natText_length_le {n k : Nat} (h : n < 10 ^ k) (hk : 0 < k) : (natText n).length ≤ k := by
  unfold natText
  split
  · rw [List.length_singleton]
    exact hk
  · rename_i hn
    rw [List.length_map, List.length_reverse]
    exact (Nat.digits_length_le_iff (by decide) n).mpr h

variable {F : Type}

/-- A well-formed value nested at most `limit` deep. -/
def Bounded (limit : Nat) (j : Json F) : Prop := WF j ∧ j.depth ≤ limit

theorem Bounded.mono {n limit : Nat} {j : Json F} (h : Bounded n j) (hn : n ≤ limit) :
    Bounded limit j :=
  ⟨h.1, h.2.trans hn⟩

theorem bounded_arr {limit : Nat} {xs : List (Json F)} :
    Bounded (limit + 1) (.arr xs) ↔ ∀ x ∈ xs, Bounded limit x := by
  simp only [Bounded, WF, wfElems_iff, depth, Nat.add_le_add_iff_right, depthElems_le_iff]
  exact forall₂_and.symm

theorem bounded_obj {limit : Nat} {m : Members F} :
    Bounded (limit + 1) (.obj m) ↔
      m.keys.Nodup ∧ ∀ kv ∈ m, splitFree kv.1 = true ∧ Bounded limit kv.2 := by
  simp only [Bounded, WF, wfMembers_iff, depth, Nat.add_le_add_iff_right, depthMembers_le_iff]
  constructor
  · rintro ⟨⟨hk, hwf⟩, hd⟩
    exact ⟨hk, fun kv hkv => ⟨(hwf kv hkv).1, (hwf kv hkv).2, hd kv hkv⟩⟩
  · rintro ⟨hk, h⟩
    exact ⟨⟨hk, fun kv hkv => ⟨(h kv hkv).1, (h kv hkv).2.1⟩⟩, fun kv hkv => (h kv hkv).2.2⟩

section Numbers
variable [PyFloat F]

theorem scanNumber_spec {s rest : Str} {j : Json F} (h : scanNumber s = .ok (j, rest)) :
    rest <:+ s ∧ Bounded 0 j := by
  unfold scanNumber at h
  split at h
  · cases h
  · rename_i i s₁ hi
    obtain ⟨hsuf, sign, ds, rfl, hsign, hne, hds⟩ := scanInt_spec hi
    have hrest : (scanExponent (scanFraction s₁).2).2 <:+ s :=
      (scanExponent_suffix _).trans ((scanFraction_suffix _).trans hsuf)
    simp only at h
    split at h
    · split at h
      · cases h
      · rename_i hlen
        cases h
        refine ⟨hrest, ?_, Nat.le_refl 0⟩
        -- the digits written are at least as many as the value needs
        have hfilter : ((sign ++ ds).filter isDigit).length = ds.length := by
          have hm : isDigit minus = false := by decide
          rw [List.filter_append, List.filter_eq_self.mpr hds]
          rcases hsign with rfl | rfl
          · rfl
          · simp [hm]
        have habs : (intValue (sign ++ ds)).natAbs = digitsValue ds := by
          obtain ⟨d, ds', rfl⟩ := List.exists_cons_of_ne_nil hne
          rcases hsign with rfl | rfl
          · simp [intValue, digit_ne_minus (hds d List.mem_cons_self)]
          · simp [intValue]
        have hbound := natText_length_le (digitsValue_lt hds) (List.length_pos_iff.mpr hne)
        simp only [WF, habs]
        omega
    · cases h
      exact ⟨hrest, trivial, Nat.le_refl 0⟩

end Numbers

/-! ## Values -/

theorem scanConstant_spec {s rest : Str} {j : Json F} {l : List (Str × Json F)}
    (hl : ∀ p ∈ l, Bounded 0 p.2) (h : scanConstant s l = some (j, rest)) :
    rest <:+ s ∧ Bounded 0 j := by
  induction l with
  | nil => cases h
  | cons p l ih =>
    obtain ⟨w, v⟩ := p
    unfold scanConstant at h
    split at h
    · rename_i s' hs'
      cases h
      unfold afterLiteral at hs'
      split at hs'
      · cases hs'
        exact ⟨List.drop_suffix _ _, hl _ List.mem_cons_self⟩
      · cases hs'
    · exact ih (fun p hp => hl p (List.mem_cons_of_mem _ hp)) h

/-- What a scanner of values nested at most `limit` deep must guarantee on plain text. -/
def Sound (limit : Nat) (value : Str → Scan (Json F)) : Prop :=
  ∀ s j rest, value s = .ok (j, rest) → Plain s → rest <:+ s ∧ Bounded limit j

theorem scanElems_spec {limit : Nat} {value : Str → Scan (Json F)} (hv : Sound limit value)
    {n : Nat} {s rest : Str} {xs : List (Json F)} (h : scanElems value n s = .ok (xs, rest))
    (hs : Plain s) : rest <:+ s ∧ ∀ x ∈ xs, Bounded limit x := by
  induction n generalizing s xs rest with
  | zero => cases h
  | succ n ih =>
    unfold scanElems at h
    split at h
    · cases h
    · rename_i v s₁ hval
      obtain ⟨hsuf, hwf⟩ := hv s v s₁ hval hs
      split at h
      · cases h
      · rename_i c s₂ hskip
        have hsuf₂ : s₂ <:+ s := (hskip ▸ List.suffix_cons c s₂).trans
          ((skipSpace_suffix s₁).trans hsuf)
        split at h
        · cases h
          exact ⟨hsuf₂, by simpa using hwf⟩
        · split at h
          · split at h
            · rename_i vs s₃ hrec
              cases h
              have hsuf₃ := (skipSpace_suffix s₂).trans hsuf₂
              obtain ⟨hr, hxs⟩ := ih hrec (hs.suffix hsuf₃)
              refine ⟨hr.trans hsuf₃, ?_⟩
              intro x hx
              rcases List.mem_cons.mp hx with rfl | hx
              · exact hwf
              · exact hxs x hx
            · cases h
          · cases h

theorem scanMember_spec {limit : Nat} {value : Str → Scan (Json F)} (hv : Sound limit value)
    {s rest k : Str} {v : Json F} (h : scanMember value s = .ok ((k, v), rest)) (hs : Plain s) :
    rest <:+ s ∧ splitFree k = true ∧ Bounded limit v := by
  unfold scanMember at h
  split at h
  · cases h
  · rename_i k' s₁ hkey
    have hk : s₁ <:+ s ∧ splitFree k' = true := by
      unfold scanKey at hkey
      split at hkey
      · cases hkey
      · rename_i c tail
        split at hkey
        · have hspec := scanString_spec hkey (hs.suffix (List.suffix_cons _ _))
          exact ⟨hspec.1.trans (List.suffix_cons _ _), hspec.2⟩
        · cases hkey
    split at h
    · cases h
    · rename_i s₂ hcolon
      have hs₂ : s₂ <:+ s := by
        unfold scanColon at hcolon
        split at hcolon
        · cases hcolon
        · rename_i c tail hskip
          split at hcolon
          · cases hcolon
            exact (skipSpace_suffix tail).trans ((hskip ▸ List.suffix_cons c tail).trans
              ((skipSpace_suffix s₁).trans hk.1))
          · cases hcolon
      split at h
      · cases h
      · rename_i v' s₃ hval
        cases h
        obtain ⟨hsuf, hwf⟩ := hv s₂ _ _ hval (hs.suffix hs₂)
        exact ⟨hsuf.trans hs₂, hk.2, hwf⟩

theorem mem_set {m : Members F} {k : Str} {v : Json F} {kv : Str × Json F} (h : kv ∈ m.set k v) :
    kv = (k, v) ∨ kv ∈ m := by
  induction m with
  | nil => exact .inl (List.mem_singleton.mp h)
  | cons p m ih =>
    obtain ⟨k', v'⟩ := p
    simp only [Members.set] at h
    split at h
    · rcases List.mem_cons.mp h with h | h
      · exact .inl h
      · exact .inr (List.mem_cons_of_mem _ h)
    · rcases List.mem_cons.mp h with h | h
      · exact .inr (List.mem_cons.mpr (.inl h))
      · rcases ih h with h | h
        · exact .inl h
        · exact .inr (List.mem_cons_of_mem _ h)

theorem scanMembers_spec {limit : Nat} {value : Str → Scan (Json F)} (hv : Sound limit value)
    {n : Nat} {s rest : Str} {acc m : Members F} (h : scanMembers value n s acc = .ok (m, rest))
    (hs : Plain s) (hacc : Bounded (limit + 1) (.obj acc)) :
    rest <:+ s ∧ Bounded (limit + 1) (.obj m) := by
  induction n generalizing s acc with
  | zero => cases h
  | succ n ih =>
    unfold scanMembers at h
    split at h
    · cases h
    · rename_i k v s₁ hmem
      obtain ⟨hsuf, hk, hwf⟩ := scanMember_spec hv hmem hs
      have hset : Bounded (limit + 1) (.obj (acc.set k v)) := by
        rw [bounded_obj] at hacc ⊢
        refine ⟨Members.nodup_set hacc.1 k v, ?_⟩
        intro kv hkv
        rcases mem_set hkv with rfl | hkv
        · exact ⟨hk, hwf⟩
        · exact hacc.2 kv hkv
      split at h
      · cases h
      · rename_i c s₂ hskip
        have hsuf₂ : s₂ <:+ s := (hskip ▸ List.suffix_cons c s₂).trans
          ((skipSpace_suffix s₁).trans hsuf)
        split at h
        · cases h
          exact ⟨hsuf₂, hset⟩
        · split at h
          · have hsuf₃ := (skipSpace_suffix s₂).trans hsuf₂
            obtain ⟨hr, hwf'⟩ := ih h (hs.suffix hsuf₃) hset
            exact ⟨hr.trans hsuf₃, hwf'⟩
          · cases h

theorem scanArray_spec {limit : Nat} {value : Str → Scan (Json F)} (hv : Sound limit value)
    {s rest : Str} {j : Json F} (h : scanArray value s = .ok (j, rest)) (hs : Plain s) :
    rest <:+ s ∧ Bounded (limit + 1) j := by
  unfold scanArray at h
  split at h
  · cases h
  · rename_i c tail hskip
    have hsuf : c :: tail <:+ s := hskip ▸ skipSpace_suffix s
    split at h
    · cases h
      exact ⟨(List.suffix_cons _ _).trans hsuf, bounded_arr.mpr (by simp)⟩
    · split at h
      · rename_i vs s' helems
        cases h
        obtain ⟨hr, hwf⟩ := scanElems_spec hv helems (hs.suffix hsuf)
        exact ⟨hr.trans hsuf, bounded_arr.mpr hwf⟩
      · cases h

theorem scanObject_spec {limit : Nat} {value : Str → Scan (Json F)} (hv : Sound limit value)
    {s rest : Str} {j : Json F} (h : scanObject value s = .ok (j, rest)) (hs : Plain s) :
    rest <:+ s ∧ Bounded (limit + 1) j := by
  have hempty : Bounded (limit + 1) (.obj [] : Json F) :=
    bounded_obj.mpr ⟨List.nodup_nil, by simp⟩
  unfold scanObject at h
  split at h
  · cases h
  · rename_i c tail hskip
    have hsuf : c :: tail <:+ s := hskip ▸ skipSpace_suffix s
    split at h
    · cases h
      exact ⟨(List.suffix_cons _ _).trans hsuf, hempty⟩
    · split at h
      · rename_i m s' hmembers
        cases h
        obtain ⟨hr, hwf⟩ := scanMembers_spec hv hmembers (hs.suffix hsuf) hempty
        exact ⟨hr.trans hsuf, hwf⟩
      · cases h

section Values
variable [PyFloat F]

theorem scanValueWith_sound {limit : Nat} {nested : Option (Str → Scan (Json F))}
    (hn : ∀ value, nested = some value → ∃ n, limit = n + 1 ∧ Sound n value) :
    Sound limit (scanValueWith nested) := by
  intro s j rest h hs
  unfold scanValueWith at h
  split at h
  · cases h
  · rename_i c tail
    have htail : tail <:+ c :: tail := List.suffix_cons c tail
    split at h
    · split at h
      · rename_i hstr
        cases h
        obtain ⟨hr, hfree⟩ := scanString_spec hstr (hs.suffix htail)
        exact ⟨hr.trans htail, hfree, Nat.zero_le limit⟩
      · cases h
    · split at h
      · split at h
        · obtain ⟨n, rfl, hsound⟩ := hn _ rfl
          obtain ⟨hr, hwf⟩ := scanObject_spec hsound h (hs.suffix htail)
          exact ⟨hr.trans htail, hwf⟩
        · cases h
      · split at h
        · split at h
          · obtain ⟨n, rfl, hsound⟩ := hn _ rfl
            obtain ⟨hr, hwf⟩ := scanArray_spec hsound h (hs.suffix htail)
            exact ⟨hr.trans htail, hwf⟩
          · cases h
        · split at h
          · rename_i hconst
            cases h
            have hspec := scanConstant_spec (by
              intro p hp
              simp only [constants, List.mem_cons, List.not_mem_nil, or_false] at hp
              rcases hp with rfl | rfl | rfl | rfl | rfl | rfl <;>
                exact ⟨trivial, Nat.le_refl 0⟩) hconst
            exact ⟨hspec.1, hspec.2.mono (Nat.zero_le limit)⟩
          · obtain ⟨hr, hb⟩ := scanNumber_spec h
            exact ⟨hr, hb.mono (Nat.zero_le limit)⟩

theorem scanValue_sound (limit : Nat) : Sound limit (scanValue (F := F) limit) := by
  induction limit with
  | zero => exact scanValueWith_sound (fun value hv => by cases hv)
  | succ limit ih =>
    refine scanValueWith_sound ?_
    intro value hv
    cases hv
    exact ⟨limit, rfl, ih⟩

theorem loads_bounded {limit : Nat} {s : Str} {j : Json F} (h : loads limit s = .ok j)
    (hs : Plain s) : Bounded limit j := by
  unfold loads at h
  split at h
  · cases h
  · split at h
    · cases h
    · rename_i v rest hval
      split at h
      · cases h
        exact (scanValue_sound limit _ _ _ hval (hs.suffix (skipSpace_suffix s))).2
      · cases h

end Values

end Support.Json
