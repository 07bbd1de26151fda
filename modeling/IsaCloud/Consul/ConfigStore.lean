import IsaCloud.Database.SqlText
import IsaCloud.Support.Dict
import IsaCloud.Support.DumpsRoundTrip
import IsaCloud.Support.Encoding
import IsaCloud.Support.JsonStrings

/-!
# Configuration in the key-value store

`set_config` stores a string as it is and any other value as JSON. The readers take
what is JSON for JSON and the rest for a string, and `get_all_config` cuts the prefix
of the service out of a key wherever it occurs. The store is Consul's: what is put
is there in UTF-8, and an empty value is none.
-/

namespace IsaCloud.Consul

set_option autoImplicit false

open Support Support.Text Support.Python Support.Json Support.Encoding

structure KvStore (S : Type) where
  put : S → Str → Str → S × Except PyError Bool
  /-- Whether the key is there, and its value. -/
  get : S → Str → Except PyError (Option (Option Bytes))
  /-- The keys with a prefix and their values, in the order of the answer. -/
  recurse : S → Str → Except PyError (List (Str × Option Bytes))

/-- What was put successfully can be read. -/
def KvStore.Keeps {S : Type} (kv : KvStore S) : Prop :=
  ∀ s k v s', kv.put s k v = (s', .ok true) → ∃ bytes, utf8Encode v = .ok bytes ∧
    kv.get s' k = .ok (some (if bytes = [] then none else some bytes))

/-- `f"{self.service_name}/"`. -/
def servicePrefix (serviceName : Str) : Str := serviceName ++ lit "/"

/-- The key in `get_all_config`. -/
def shortKey (serviceName key : Str) : Str := Database.replaceText (servicePrefix serviceName) [] key

/-- What a reader returns: the default, or a value it has read. -/
inductive ConfigResult (A F : Type) where
  | default (a : A)
  | value (j : Json F)

section Methods
variable {S F : Type} [PyFloat F] (kv : KvStore S) (nesting : Nat) (serviceName : Str)

def configText : Json F → Except PyError Str
  | .str s => .ok s
  | j => PyValue.dumps (.ofJson j)

def parseText (value : Str) : Except PyError (Json F) :=
  match loads nesting value with
  | .ok j => .ok j
  | .error e => if e.kind = .jsonDecodeError then .ok (.str value) else .error e

def parseValue (bytes : Bytes) : Except PyError (Json F) :=
  match utf8Decode false bytes with
  | .ok value => parseText nesting value
  | .error e => .error e

def setConfig (s : S) (key : Str) (value : Json F) : S × Bool :=
  match configText value with
  | .error _ => (s, false)
  | .ok text =>
    match kv.put s (servicePrefix serviceName ++ key) text with
    | (s', .ok stored) => (s', stored)
    | (s', .error _) => (s', false)

def getConfig {A : Type} (s : S) (key : Str) (default : A) : ConfigResult A F :=
  match kv.get s (servicePrefix serviceName ++ key) with
  | .ok (some (some (b :: bytes))) =>
    match parseValue nesting (b :: bytes) with
    | .ok j => .value j
    | .error _ => .default default
  | _ => .default default

/-- The loop of `get_all_config`. -/
def collectConfig (config : Dict Str (Json F)) : List (Str × Option Bytes) → Except PyError (Dict Str (Json F))
  | [] => .ok config
  | (key, some (b :: bytes)) :: items =>
    match parseValue nesting (b :: bytes) with
    | .ok j => collectConfig (config.set (shortKey serviceName key) j) items
    | .error e => .error e
  | _ :: items => collectConfig config items

def getAllConfig (s : S) : Dict Str (Json F) :=
  match kv.recurse s (servicePrefix serviceName) with
  | .error _ => Dict.empty
  | .ok items =>
    match collectConfig nesting serviceName Dict.empty items with
    | .ok config => config
    | .error _ => Dict.empty

/-! ## What is kept -/

/-- `get_config` has read the value, whatever the default, and `get_all_config` has it under the key. -/
structure RoundTrips (s : S) (key : Str) (value : Json F) : Prop where
  one : ∀ (A : Type) (default : A), getConfig kv nesting serviceName s key default = .value value
  all : (getAllConfig kv nesting serviceName s).get key = some value

/-- A string that is not empty and no JSON, or another value that its JSON text says. -/
def Kept : Json F → Prop
  | .str s => s ≠ [] ∧ ∃ e, loads (F := F) nesting s = .error e ∧ e.kind = .jsonDecodeError
  | j => WF j ∧ j.depth ≤ nesting

/-- The bytes of an item that has a value. -/
def bytesOf : Str × Option Bytes → Option Bytes
  | (_, some (b :: bytes)) => some (b :: bytes)
  | _ => none

/-- The item is there under this key, with this value. -/
def Holds (key : Str) (value : Json F) (item : Str × Option Bytes) : Prop :=
  ∃ bytes, bytesOf item = some bytes ∧ shortKey serviceName item.1 = key ∧ parseValue nesting bytes = .ok value

/-- Every value can be read, and the last of the items under the key has this one. -/
structure Listed (items : List (Str × Option Bytes)) (key : Str) (value : Json F) : Prop where
  readable : ∀ item ∈ items, ∀ bytes, bytesOf item = some bytes → ∃ j : Json F, parseValue nesting bytes = .ok j
  last : ∃ before item after, items = before ++ item :: after ∧ Holds nesting serviceName key value item ∧
    ∀ later ∈ after, (bytesOf later).isSome = true → shortKey serviceName later.1 ≠ key

end Methods

/-! ## One value -/

section Values
variable {F : Type} [PyFloat F] [LawfulPyFloat F] {nesting : Nat}

omit [LawfulPyFloat F] in
theorem parseText_ok_iff {j : Json F} (hj : ∀ s, j ≠ .str s) {t : Str} :
    parseText nesting t = .ok j ↔ loads nesting t = .ok j := by
  rw [parseText]
  cases loads (F := F) nesting t with
  | ok j' => rfl
  | error e =>
    dsimp only
    by_cases hkind : e.kind = .jsonDecodeError
    · rw [if_pos hkind]
      exact iff_of_false (fun h => hj t (Except.ok.inj h).symm) nofun
    · rw [if_neg hkind]

omit [LawfulPyFloat F] in
theorem loads_empty {j : Json F} : loads nesting [] ≠ .ok j := by
  cases nesting with
  | zero => exact nofun
  | succ nesting => exact nofun

omit [LawfulPyFloat F] in
theorem parseText_str_iff {s : Str} : parseText (F := F) nesting s = .ok (.str s) ↔
    ∃ e, loads (F := F) nesting s = .error e ∧ e.kind = .jsonDecodeError := by
  rw [parseText]
  cases hloads : loads (F := F) nesting s with
  | ok j =>
    apply iff_of_false
    · intro h
      rw [Except.ok.inj h] at hloads
      exact loads_ne_self nesting s hloads
    · rintro ⟨e, he, -⟩
      cases he
  | error e =>
    dsimp only
    by_cases hkind : e.kind = .jsonDecodeError
    · rw [if_pos hkind]
      exact iff_of_true rfl ⟨e, rfl, hkind⟩
    · rw [if_neg hkind]
      apply iff_of_false nofun
      rintro ⟨e', he, hkind'⟩
      cases he
      exact hkind hkind'

theorem kept_iff {value : Json F} {t : Str} (h : configText value = .ok t) :
    t ≠ [] ∧ parseText nesting t = .ok value ↔ Kept nesting value := by
  have hjson : ∀ {j : Json F}, (∀ s, j ≠ .str s) → PyValue.dumps (.ofJson j) = .ok t →
      (t ≠ [] ∧ parseText nesting t = .ok j ↔ WF j ∧ j.depth ≤ nesting) := by
    intro j hj ht
    rw [parseText_ok_iff hj, PyValue.loads_dumps_iff ht, and_iff_right_iff_imp]
    rintro hbounded rfl
    exact loads_empty ((PyValue.loads_dumps_iff ht).mpr hbounded)
  cases value with
  | str s =>
    cases h
    exact and_congr_right fun _ => parseText_str_iff
  | null => exact hjson nofun h
  | bool b => exact hjson nofun h
  | int n => exact hjson nofun h
  | float x => exact hjson nofun h
  | arr xs => exact hjson nofun h
  | obj m => exact hjson nofun h

end Values

/-! ## The two readers -/

section Readers
variable {S F : Type} [PyFloat F] {kv : KvStore S} {nesting : Nat} {serviceName : Str}

theorem collectConfig_cons (config : Dict Str (Json F)) (item : Str × Option Bytes) (items : List (Str × Option Bytes)) :
    collectConfig nesting serviceName config (item :: items) =
      match bytesOf item with
      | none => collectConfig nesting serviceName config items
      | some bytes =>
        match parseValue nesting bytes with
        | .ok j => collectConfig nesting serviceName (config.set (shortKey serviceName item.1) j) items
        | .error e => .error e := by
  obtain ⟨k, v⟩ := item
  cases v with
  | none => rfl
  | some v =>
    cases v with
    | nil => rfl
    | cons b v => rfl

theorem exists_split_cons {A : Type} {P : A → Prop} {Q : List A → Prop} {a : A} {as : List A} :
    (∃ before x after, a :: as = before ++ x :: after ∧ P x ∧ Q after) ↔
      (P a ∧ Q as) ∨ ∃ before x after, as = before ++ x :: after ∧ P x ∧ Q after := by
  constructor
  · rintro ⟨before, x, after, heq, hx, hafter⟩
    cases before with
    | nil =>
      cases heq
      exact Or.inl ⟨hx, hafter⟩
    | cons b before =>
      cases heq
      exact Or.inr ⟨before, x, after, rfl, hx, hafter⟩
  · rintro (⟨ha, has⟩ | ⟨before, x, after, rfl, hx, hafter⟩)
    · exact ⟨[], a, as, rfl, ha, has⟩
    · exact ⟨a :: before, x, after, rfl, hx, hafter⟩

/-- The loop gives the key the value of the last item under it, or what it had. -/
theorem collectConfig_iff {config : Dict Str (Json F)} {items : List (Str × Option Bytes)} {key : Str} {value : Json F} :
    (∃ d, collectConfig nesting serviceName config items = .ok d ∧ d.get key = some value) ↔
      (∀ item ∈ items, ∀ bytes, bytesOf item = some bytes → ∃ j : Json F, parseValue nesting bytes = .ok j) ∧
        ((∃ before item after, items = before ++ item :: after ∧ Holds nesting serviceName key value item ∧
            ∀ later ∈ after, (bytesOf later).isSome = true → shortKey serviceName later.1 ≠ key) ∨
          (∀ item ∈ items, (bytesOf item).isSome = true → shortKey serviceName item.1 ≠ key) ∧
            config.get key = some value) := by
  induction items generalizing config with
  | nil =>
    constructor
    · rintro ⟨d, hd, hget⟩
      cases hd
      exact ⟨nofun, Or.inr ⟨nofun, hget⟩⟩
    · rintro ⟨-, ⟨before, item, after, heq, -⟩ | ⟨-, hget⟩⟩
      · exact absurd heq.symm (List.append_ne_nil_of_right_ne_nil before (List.cons_ne_nil item after))
      · exact ⟨config, rfl, hget⟩
  | cons item items ih =>
    rw [collectConfig_cons, exists_split_cons, List.forall_mem_cons, List.forall_mem_cons]
    cases hbytes : bytesOf item with
    | none =>
      have hholds : ¬ Holds nesting serviceName key value item := by
        rintro ⟨bytes, hsome, -⟩
        rw [hbytes] at hsome
        cases hsome
      dsimp only
      rw [ih]
      simp [hholds]
    | some bytes =>
      dsimp only
      cases hparse : parseValue (F := F) nesting bytes with
      | error e =>
        dsimp only
        constructor
        · rintro ⟨d, hd, -⟩
          cases hd
        · rintro ⟨⟨hread, -⟩, -⟩
          obtain ⟨j, hj⟩ := hread bytes rfl
          rw [hparse] at hj
          cases hj
      | ok j =>
        have hholds : Holds nesting serviceName key value item ↔ shortKey serviceName item.1 = key ∧ j = value := by
          rw [Holds, hbytes]
          simp [hparse]
        have hread : ∀ bytes', some bytes = some bytes' → ∃ j : Json F, parseValue nesting bytes' = .ok j := by
          rintro _ ⟨⟩
          exact ⟨j, hparse⟩
        dsimp only
        rw [ih, hholds, Dict.get_set]
        by_cases hkey : shortKey serviceName item.1 = key
        · rw [if_pos hkey.symm]
          constructor
          · rintro ⟨hall, hlast | ⟨hnone, hj⟩⟩
            · exact ⟨⟨hread, hall⟩, Or.inl (Or.inr hlast)⟩
            · exact ⟨⟨hread, hall⟩, Or.inl (Or.inl ⟨⟨hkey, Option.some.inj hj⟩, hnone⟩)⟩
          · rintro ⟨⟨-, hall⟩, (⟨⟨-, hj⟩, hnone⟩ | hlast) | ⟨⟨hne, -⟩, -⟩⟩
            · exact ⟨hall, Or.inr ⟨hnone, congrArg some hj⟩⟩
            · exact ⟨hall, Or.inl hlast⟩
            · exact absurd hkey (hne rfl)
        · rw [if_neg (Ne.symm hkey)]
          constructor
          · rintro ⟨hall, hlast | ⟨hnone, hget⟩⟩
            · exact ⟨⟨hread, hall⟩, Or.inl (Or.inr hlast)⟩
            · exact ⟨⟨hread, hall⟩, Or.inr ⟨⟨fun _ => hkey, hnone⟩, hget⟩⟩
          · rintro ⟨⟨-, hall⟩, (⟨⟨heq, -⟩, -⟩ | hlast) | ⟨⟨-, hnone⟩, hget⟩⟩
            · exact absurd heq hkey
            · exact ⟨hall, Or.inl hlast⟩
            · exact ⟨hall, Or.inr ⟨hnone, hget⟩⟩

end Readers

/-! ## The round trip -/

section RoundTrip
variable {S F : Type} [PyFloat F] [LawfulPyFloat F] {kv : KvStore S} {nesting : Nat} {serviceName : Str} {s s' : S}
  {key : Str} {value : Json F}

omit [LawfulPyFloat F] in
theorem setConfig_true (h : setConfig kv serviceName s key value = (s', true)) :
    ∃ text, configText value = .ok text ∧ kv.put s (servicePrefix serviceName ++ key) text = (s', .ok true) := by
  rw [setConfig] at h
  cases htext : configText value with
  | error e =>
    rw [htext] at h
    cases h
  | ok text =>
    rw [htext] at h
    dsimp only at h
    cases hput : kv.put s (servicePrefix serviceName ++ key) text with
    | mk s₁ answer =>
      rw [hput] at h
      cases answer with
      | error e => cases h
      | ok stored =>
        cases h
        exact ⟨text, rfl, hput⟩

theorem getConfig_iff (hkv : kv.Keeps) (hset : setConfig kv serviceName s key value = (s', true)) :
    (∀ (A : Type) (default : A), getConfig kv nesting serviceName s' key default = .value value) ↔ Kept nesting value := by
  obtain ⟨text, htext, hput⟩ := setConfig_true hset
  obtain ⟨bytes, hbytes, hget⟩ := hkv _ _ _ _ hput
  have hdecode := utf8Decode_of_encode hbytes false
  rw [← kept_iff htext]
  cases bytes with
  | nil =>
    have hnil : text = [] := by
      rw [utf8Encode_injective hbytes (t := []) rfl]
    constructor
    · intro h
      have hdefault := h Unit ()
      rw [getConfig, hget] at hdefault
      cases hdefault
    · rintro ⟨hne, -⟩
      exact absurd hnil hne
  | cons b bytes =>
    have hne : text ≠ [] := by
      rintro rfl
      cases hbytes
    have hvalue : ∀ (A : Type) (default : A), getConfig kv nesting serviceName s' key default =
        match parseText (F := F) nesting text with
        | .ok j => .value j
        | .error _ => .default default := by
      intro A default
      rw [getConfig, hget]
      simp only [List.cons_ne_nil, if_false, parseValue, hdecode]
    rw [and_iff_right hne]
    constructor
    · intro h
      have hunit := (hvalue Unit ()).symm.trans (h Unit ())
      cases hparse : parseText (F := F) nesting text with
      | error e =>
        rw [hparse] at hunit
        cases hunit
      | ok j =>
        rw [hparse] at hunit
        cases hunit
        rfl
    · intro hparse A default
      rw [hvalue, hparse]

omit [LawfulPyFloat F] in
theorem getAllConfig_iff :
    (getAllConfig kv nesting serviceName s').get key = some value ↔
      ∃ items, kv.recurse s' (servicePrefix serviceName) = .ok items ∧ Listed nesting serviceName items key value := by
  rw [getAllConfig]
  cases kv.recurse s' (servicePrefix serviceName) with
  | error e => exact iff_of_false nofun nofun
  | ok items =>
    have hloop := @collectConfig_iff F _ nesting serviceName Dict.empty items key value
    have hlisted : Listed nesting serviceName items key value ↔
        ∃ d, collectConfig nesting serviceName Dict.empty items = .ok d ∧ d.get key = some value := by
      rw [hloop]
      constructor
      · intro h
        exact ⟨h.readable, Or.inl h.last⟩
      · rintro ⟨hread, hlast | ⟨-, hget⟩⟩
        · exact ⟨hread, hlast⟩
        · cases hget
    simp only [Except.ok.injEq, exists_eq_left', hlisted]
    cases collectConfig (F := F) nesting serviceName Dict.empty items with
    | error e => exact iff_of_false nofun nofun
    | ok d => simp

/-- A value that was set comes back from both readers exactly where its text says it and no later key hides it. -/
theorem config_round_trip_iff (hkv : kv.Keeps) (hset : setConfig kv serviceName s key value = (s', true)) :
    RoundTrips kv nesting serviceName s' key value ↔
      Kept nesting value ∧
        ∃ items, kv.recurse s' (servicePrefix serviceName) = .ok items ∧ Listed nesting serviceName items key value := by
  rw [← getConfig_iff hkv hset, ← getAllConfig_iff]
  exact ⟨fun h => ⟨h.one, h.all⟩, fun h => ⟨h.1, h.2⟩⟩

end RoundTrip

/-! ## Two settings -/

/-- A store in memory. -/
def memoryKv : KvStore (Dict Str Bytes) where
  put s k v :=
    match utf8Encode v with
    | .ok bytes => (s.set k bytes, .ok true)
    | .error e => (s, .error e)
  get s k := .ok ((s.get k).map fun bytes => if bytes = [] then none else some bytes)
  recurse s k := .ok ((s.entries.filter fun e => decide (k <+: e.1)).map fun e =>
    (e.1, if e.2 = [] then none else some e.2))

theorem memoryKv_keeps : memoryKv.Keeps := by
  intro s k v s' hput
  dsimp only [memoryKv] at hput ⊢
  cases hbytes : utf8Encode v with
  | error e =>
    rw [hbytes] at hput
    cases hput
  | ok bytes =>
    rw [hbytes] at hput
    cases hput
    exact ⟨bytes, rfl, by rw [Dict.get_set_self]; rfl⟩

def hosts : Json Unit := .arr [.str (lit "db1"), .str (lit "db2")]

def withHosts : Dict Str Bytes := (setConfig memoryKv (lit "orders") Dict.empty (lit "hosts") hosts).1

theorem hosts_round_trip : RoundTrips memoryKv 900 (lit "orders") withHosts (lit "hosts") hosts := by
  have hset : setConfig memoryKv (lit "orders") Dict.empty (lit "hosts") hosts = (withHosts, true) := rfl
  apply (config_round_trip_iff memoryKv_keeps hset).mpr
  have hkept : Kept 900 hosts := ⟨⟨rfl, rfl, trivial⟩, by decide⟩
  refine ⟨hkept, _, rfl, ?_, [], _, [], rfl, ⟨_, rfl, by decide, rfl⟩, nofun⟩
  intro item hitem bytes hbytes
  cases List.mem_singleton.mp hitem
  cases hbytes
  exact ⟨_, rfl⟩

/-- A port given as a string comes back as a number. -/
theorem port_comes_back_number :
    (setConfig (F := Unit) memoryKv (lit "orders") Dict.empty (lit "port") (.str (lit "8080"))).2 = true ∧
      ¬ RoundTrips (F := Unit) memoryKv 900 (lit "orders")
        (setConfig (F := Unit) memoryKv (lit "orders") Dict.empty (lit "port") (.str (lit "8080"))).1
        (lit "port") (.str (lit "8080")) := by
  refine ⟨rfl, ?_⟩
  intro h
  have hread : getConfig (F := Unit) memoryKv 900 (lit "orders")
      (setConfig (F := Unit) memoryKv (lit "orders") Dict.empty (lit "port") (.str (lit "8080"))).1 (lit "port") () =
      .value (.int 8080) := rfl
  cases hread.symm.trans (h.one Unit ())

end IsaCloud.Consul
