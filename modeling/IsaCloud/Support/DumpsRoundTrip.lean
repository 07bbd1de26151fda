import IsaCloud.Support.JsonWellFormed
import IsaCloud.Support.PyDump

/-!
# What `json.dumps` without options writes

Its text is a spelling of the value, in printable ASCII, so it reads back as the
value exactly when the value is well formed and not nested too deeply.
-/

namespace Support.PyValue

set_option autoImplicit false

open Text Python Json

variable {F : Type} [PyFloat F]

/-- A text that spells the value and needs no escapes. -/
def Writes (j : Json F) (t : Str) : Prop := Spells j t ∧ Printable t

theorem blank_space : Blank [(32 : CodePoint)] := by
  intro c hc
  rw [List.mem_singleton.mp hc]
  rfl

theorem intercalate_cons (t : Str) (ts : List Str) :
    (lit ", ").intercalate (t :: ts) = t ++ ts.flatMap fun u => lit ", " ++ u := by
  induction ts generalizing t with
  | nil => simp
  | cons u ts ih =>
    rw [List.intercalate_cons_cons, ih, List.flatMap_cons, List.append_assoc, List.append_assoc]

theorem dumpsElems_cons_ok {x : PyValue F} {xs : List (PyValue F)} {ts : List Str} (h : dumpsElems (x :: xs) = .ok ts) :
    ∃ t us, dumps x = .ok t ∧ dumpsElems xs = .ok us ∧ ts = t :: us := by
  rw [dumpsElems] at h
  cases hx : dumps x with
  | error e =>
    rw [hx] at h
    cases h
  | ok t =>
    rw [hx] at h
    cases hxs : dumpsElems xs with
    | error e =>
      rw [hxs] at h
      cases h
    | ok us =>
      rw [hxs] at h
      cases h
      exact ⟨t, us, rfl, rfl, rfl⟩

theorem dumpsMembers_cons_ok {k : Str} {x : PyValue F} {m : List (Str × PyValue F)} {ts : List Str}
    (h : dumpsMembers ((k, x) :: m) = .ok ts) :
    ∃ t us, dumps x = .ok t ∧ dumpsMembers m = .ok us ∧ ts = (quoted k ++ colon :: 32 :: t) :: us := by
  rw [dumpsMembers] at h
  cases hx : dumps x with
  | error e =>
    rw [hx] at h
    cases h
  | ok t =>
    rw [hx] at h
    cases hm : dumpsMembers m with
    | error e =>
      rw [hm] at h
      cases h
    | ok us =>
      rw [hm] at h
      cases h
      exact ⟨t, us, rfl, rfl, rfl⟩

/-! ## The texts of elements and members -/

/-- The elements after the first, with the closing bracket. -/
def tailText (ts : List Str) (close : CodePoint) : Str := (ts.flatMap fun t => lit ", " ++ t) ++ [close]

theorem tailText_cons (t : Str) (ts : List Str) (close : CodePoint) :
    tailText (t :: ts) close = comma :: 32 :: (t ++ tailText ts close) := by
  rw [tailText, List.flatMap_cons, List.append_assoc, List.append_assoc]
  rfl

theorem printable_tailText {α : Type} {R : α → Str → Prop} (hR : ∀ a t, R a t → Printable t) (close : CodePoint)
    {as : List α} {ts : List Str} (h : List.Forall₂ R as ts) (hclose : 0x20 ≤ close.val ∧ close.val ≤ 0x7e) :
    Printable (tailText ts close) := by
  induction h with
  | nil => exact Printable.cons hclose Printable.nil
  | cons hat _ ih =>
    rw [tailText_cons]
    exact Printable.cons (by decide) (Printable.cons (by decide) ((hR _ _ hat).append ih))

theorem spellsElems_tail {xs : List (Json F)} {ts : List Str} (h : List.Forall₂ Writes xs ts) :
    SpellsElems xs (tailText ts closeBracket) := by
  induction h with
  | nil => exact ⟨[], blank_nil, rfl⟩
  | cons hx _ ih => exact ⟨[], [32], _, _, blank_nil, blank_space, hx.1, ih, tailText_cons _ _ _⟩

theorem writes_list {xs : List (Json F)} {ts : List Str} (h : List.Forall₂ Writes xs ts) :
    Writes (.arr xs) (openBracket :: ((lit ", ").intercalate ts ++ [closeBracket])) := by
  cases h with
  | nil => exact ⟨⟨[], blank_nil, rfl⟩, printable_of_all (by decide)⟩
  | @cons x t xs ts hx hxs =>
    have htext : (lit ", ").intercalate (t :: ts) ++ [closeBracket] = t ++ tailText ts closeBracket := by
      rw [intercalate_cons, List.append_assoc, tailText]
    have htail := printable_tailText (fun _ _ hy => hy.2) closeBracket hxs (by decide)
    rw [htext]
    exact ⟨⟨[], t, _, blank_nil, hx.1, spellsElems_tail hxs, rfl⟩, Printable.cons (by decide) (hx.2.append htail)⟩

/-- A member as `dumps` writes it. -/
def WritesMember (kv : Str × Json F) (u : Str) : Prop := ∃ t, Writes kv.2 t ∧ u = quoted kv.1 ++ colon :: 32 :: t

theorem memberSpelling_dumps (k t : Str) : MemberSpelling k t (quoted k ++ colon :: 32 :: t) :=
  ⟨quoted k, [], [32], quotedSpelling_quoted k, blank_nil, blank_space, rfl⟩

theorem WritesMember.printable {kv : Str × Json F} {u : Str} (h : WritesMember kv u) : Printable u := by
  obtain ⟨t, ht, rfl⟩ := h
  exact (printable_quoted kv.1).append (Printable.cons (by decide) (Printable.cons (by decide) ht.2))

theorem spellsMembers_tail {m : Members F} {ts : List Str} (h : List.Forall₂ WritesMember m ts) :
    SpellsMembers m (tailText ts closeBrace) := by
  induction h with
  | nil => exact ⟨[], blank_nil, rfl⟩
  | cons hkv _ ih =>
    obtain ⟨t, ht, rfl⟩ := hkv
    exact ⟨[], [32], t, _, _, blank_nil, blank_space, ht.1, memberSpelling_dumps _ t, ih, tailText_cons _ _ _⟩

theorem writes_dict {m : Members F} {ts : List Str} (h : List.Forall₂ WritesMember m ts) :
    Writes (.obj m) (openBrace :: ((lit ", ").intercalate ts ++ [closeBrace])) := by
  cases h with
  | nil => exact ⟨⟨[], blank_nil, rfl⟩, printable_of_all (by decide)⟩
  | @cons kv u m ts hkv hm =>
    have htext : (lit ", ").intercalate (u :: ts) ++ [closeBrace] = u ++ tailText ts closeBrace := by
      rw [intercalate_cons, List.append_assoc, tailText]
    have htail := printable_tailText (fun _ _ hy => hy.printable) closeBrace hm (by decide)
    have hprint := Printable.cons (c := openBrace) (by decide) (hkv.printable.append htail)
    rw [htext]
    obtain ⟨t, ht, rfl⟩ := hkv
    exact ⟨⟨[], t, _, _, blank_nil, ht.1, memberSpelling_dumps _ t, spellsMembers_tail hm, rfl⟩, hprint⟩

/-! ## Every JSON value -/

theorem writes_compact [LawfulPyFloat F] (j : Json F) : Writes j (compact j) := ⟨spells_compact j, printable_compact j⟩

theorem writes_elems {xs : List (Json F)} {ts : List Str}
    (h : ∀ x ∈ xs, ∀ t, dumps (ofJson x) = .ok t → Writes x t) (hts : dumpsElems (ofElems xs) = .ok ts) :
    List.Forall₂ Writes xs ts := by
  induction xs generalizing ts with
  | nil =>
    cases hts
    exact .nil
  | cons x xs ih =>
    obtain ⟨u, us, hu, hus, rfl⟩ := dumpsElems_cons_ok hts
    exact .cons (h x List.mem_cons_self u hu) (ih (fun y hy => h y (List.mem_cons_of_mem x hy)) hus)

theorem writes_members {m : Members F} {ts : List Str}
    (h : ∀ kv ∈ m, ∀ t, dumps (ofJson kv.2) = .ok t → Writes kv.2 t) (hts : dumpsMembers (ofMembers m) = .ok ts) :
    List.Forall₂ WritesMember m ts := by
  induction m generalizing ts with
  | nil =>
    cases hts
    exact .nil
  | cons kv m ih =>
    obtain ⟨u, us, hu, hus, rfl⟩ := dumpsMembers_cons_ok hts
    exact .cons ⟨u, h kv List.mem_cons_self u hu, rfl⟩ (ih (fun y hy => h y (List.mem_cons_of_mem kv hy)) hus)

theorem writes_dumps [LawfulPyFloat F] {j : Json F} {t : Str} (h : dumps (ofJson j) = .ok t) : Writes j t := by
  induction j using inside_induction generalizing t with
  | null =>
    cases h
    exact writes_compact .null
  | bool b =>
    have ht : t = compact (.bool b : Json F) := by
      cases b <;> exact (Except.ok.inj h).symm
    rw [ht]
    exact writes_compact _
  | int n =>
    rw [ofJson, dumps] at h
    split at h
    · cases h
      exact writes_compact (.int n)
    · cases h
  | float x =>
    cases h
    exact writes_compact (.float x)
  | str s =>
    cases h
    exact writes_compact (.str s)
  | arr xs ih =>
    rw [ofJson, dumps] at h
    cases hxs : dumpsElems (ofElems xs) with
    | error e =>
      rw [hxs] at h
      cases h
    | ok ts =>
      rw [hxs] at h
      cases h
      exact writes_list (writes_elems (fun x hx t => ih x hx) hxs)
  | obj m ih =>
    rw [ofJson, dumps] at h
    cases hm : dumpsMembers (ofMembers m) with
    | error e =>
      rw [hm] at h
      cases h
    | ok ts =>
      rw [hm] at h
      cases h
      exact writes_dict (writes_members (fun kv hkv t => ih kv hkv) hm)

/-! ## What has a text -/

theorem dumpsElems_ok {xs : List (Json F)} (h : ∀ x ∈ xs, ∃ t, dumps (ofJson x) = .ok t) :
    ∃ ts, dumpsElems (ofElems xs) = .ok ts := by
  induction xs with
  | nil => exact ⟨[], rfl⟩
  | cons x xs ih =>
    obtain ⟨t, ht⟩ := h x List.mem_cons_self
    obtain ⟨ts, hts⟩ := ih fun y hy => h y (List.mem_cons_of_mem x hy)
    exact ⟨t :: ts, by rw [ofElems, dumpsElems, ht, hts]; rfl⟩

theorem dumpsMembers_ok {m : Members F} (h : ∀ kv ∈ m, ∃ t, dumps (ofJson kv.2) = .ok t) :
    ∃ ts, dumpsMembers (ofMembers m) = .ok ts := by
  induction m with
  | nil => exact ⟨[], rfl⟩
  | cons kv m ih =>
    obtain ⟨t, ht⟩ := h kv List.mem_cons_self
    obtain ⟨ts, hts⟩ := ih fun kv' hkv' => h kv' (List.mem_cons_of_mem kv hkv')
    exact ⟨_ :: ts, by rw [ofMembers, dumpsMembers, ht, hts]; rfl⟩

/-- Only an integer that is too long keeps a JSON value from having a text. -/
theorem dumps_ok (j : Json F) (h : intsFit j = true) : ∃ t, dumps (ofJson j) = .ok t := by
  induction j using inside_induction with
  | null => exact ⟨_, rfl⟩
  | bool b => exact ⟨_, rfl⟩
  | int n => exact ⟨intText n, by rw [ofJson, dumps, if_pos (of_decide_eq_true h)]⟩
  | float x => exact ⟨_, rfl⟩
  | str s => exact ⟨_, rfl⟩
  | arr xs ih =>
    obtain ⟨ts, hts⟩ := dumpsElems_ok fun x hx => ih x hx (intsFitElems_iff.mp h x hx)
    exact ⟨_, by rw [ofJson, dumps, hts]; rfl⟩
  | obj m ih =>
    obtain ⟨ts, hts⟩ := dumpsMembers_ok fun kv hkv => ih kv hkv (intsFitMembers_iff.mp h kv hkv)
    exact ⟨_, by rw [ofJson, dumps, hts]; rfl⟩

theorem plain_of_printable {t : Str} (h : Printable t) : Plain t := by
  intro c hc
  have hval := h c hc
  simp only [isHigh, isLow, decide_eq_false_iff_not]
  omega

/-- The text reads back as the value exactly where the value is one that `loads` can return. -/
theorem loads_dumps_iff [LawfulPyFloat F] {j : Json F} {t : Str} (h : dumps (ofJson j) = .ok t) {limit : Nat} :
    loads limit t = .ok j ↔ WF j ∧ j.depth ≤ limit := by
  have hwrites := writes_dumps h
  constructor
  · intro hloads
    exact loads_bounded hloads (plain_of_printable hwrites.2)
  · intro hj
    exact loads_spelling hj.1 hj.2 (spelling_of_spells hwrites.1)

end Support.PyValue
