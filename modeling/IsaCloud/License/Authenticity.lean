import IsaCloud.License.Config
import IsaCloud.License.Verdicts

/-!
# What a license configuration rests on

A configuration that grants anything comes from an object whose signature
verifies, for the running edition, inside its window. Its fields are a function
of the signed body except where `str` shows the order of the members of an
object: the canonical body is sorted, the text is not.
-/

namespace IsaCloud.License

set_option autoImplicit false

open Support Support.Text Support.Python Support.DateTime Support.Encoding Support.Base64
  Support.Json

def LicenseStatus.isAccepted : LicenseStatus → Bool
  | valid => true
  | grace => true
  | expired => true
  | _ => false

theorem isAccepted_of_derived {expiresAt : Option Instant} {graceDays : Int} {now : Instant}
    {status : LicenseStatus} (h : deriveTimeStatus expiresAt graceDays now = .ok status) :
    status.isAccepted = true := by
  rcases deriveTimeStatus_time h with rfl | rfl | rfl <;> rfl

/-- An accepted license has its status of the time. -/
theorem currentStatus_of_accepted {c : LicenseConfig} (h : c.status.isAccepted = true) (now : Instant) :
    c.currentStatus now = deriveTimeStatus c.expiresAt c.graceDays now := by
  have hterminal : LicenseConfig.isTerminal c.status = false := by
    cases hs : c.status with
    | valid => rfl
    | grace => rfl
    | expired => rfl
    | invalid =>
      rw [hs] at h
      cases h
    | unlicensed =>
      rw [hs] at h
      cases h
  rw [LicenseConfig.currentStatus, hterminal]
  rfl

/-- The same deployment with other bytes in its license file. -/
def Environment.withContent (env : Environment) (content : Bytes) : Environment :=
  { env with file := fun _ => some (some content) }

theorem licenseFile_withContent {env : Environment} {content : Option Bytes}
    (h : env.licenseFile = some content) (bytes : Bytes) :
    (env.withContent bytes).licenseFile = some (some bytes) := by
  unfold Environment.licenseFile at h ⊢
  simp only [Environment.withContent]
  split at h
  · cases h
  · split at h
    · cases h
    · rename_i hne
      simp only [if_neg hne]

section Reading
variable {F : Type} [PyFloat F]

theorem parseTs_sorted (v : Option (Json F)) : parseTs (v.map sorted) = parseTs v := by
  cases v with
  | none => rfl
  | some j =>
    simp only [Option.map_some, parseTs, truthy_sorted]
    cases j <;> rfl

variable [Unicode]

theorem loaded_unique {env : Environment} {obj obj' : Members F} {f f' : Fields}
    (h : Loaded env obj f) (h' : Loaded env obj' f') : obj' = obj ∧ f' = f := by
  obtain ⟨content, hfile, hread, hfields⟩ := h
  obtain ⟨content', hfile', hread', hfields'⟩ := h'
  rw [hfile] at hfile'
  cases hfile'
  rw [hread] at hread'
  cases hread'
  rw [hfields] at hfields'
  exact ⟨rfl, (Except.ok.inj hfields').symm⟩

end Reading

section Authentic
variable {F : Type} [PyFloat F] [Cryptography]

/-- Base64, PEM and ed25519 all succeed on the signature and body of the object. -/
def Verified (env : Environment) (obj : Members F) : Prop :=
  ∃ s pem pemBytes key sig body, obj.get signatureField = some (.str s) ∧
    env.publicPem = some pem ∧ utf8Encode pem = .ok pemBytes ∧
    Cryptography.loadPemPublicKey pemBytes = .ok (some key) ∧ b64decode s = .ok sig ∧
    canonicalBody obj = .ok body ∧ Cryptography.verify key sig body = true

theorem Signed.verified {env : Environment} {obj : Members F} (h : Signed env obj) :
    Verified env obj := by
  obtain ⟨signature, pem, hsig, hpem, -, -, hverify⟩ := h
  unfold signatureVerifies at hverify
  split at hverify
  · cases hverify
  · rename_i pemBytes hbytes
    split at hverify
    · cases hverify
    · cases hverify
    · rename_i key hkey
      split at hverify
      · rename_i s
        split at hverify
        · rename_i sig body hsig' hbody
          exact ⟨s, pem, pemBytes, key, sig, body, hsig, hpem, hbytes, hkey, hsig', hbody, hverify⟩
        · cases hverify
      · cases hverify

variable [Unicode]

variable (F) in
/-- A status above `INVALID`, or a single entitled module, means a verified
object of the running edition that is not before its window. -/
def Authentic (env : Environment) : Prop :=
  ∀ cfg, fromEnv F env = .ok cfg →
    cfg.status.isAccepted = true ∨ (∃ moduleKey, cfg.isEntitled moduleKey = true) →
    ∃ (obj : Members F) (f : Fields), Loaded env obj f ∧ Verified env obj ∧
      strField obj "edition" = env.getEdition.edition.value ∧
      ∀ nb, parseTs (obj.get (lit "not_before")) = .ok (some nb) → nb ≤ env.now

theorem authentic (env : Environment) : Authentic F env := by
  intro cfg hcfg hgrant
  rcases fromEnv_cases hcfg with rfl | rfl | ⟨obj, f, -, -, rfl⟩ | ⟨obj, f, st, hl, ht, -, rfl⟩
  · rcases hgrant with h | ⟨m, h⟩ <;> cases h
  · rcases hgrant with h | ⟨m, h⟩ <;> cases h
  · rcases hgrant with h | ⟨m, h⟩ <;> cases h
  · obtain ⟨content, -, -, hfields⟩ := id hl
    have hex := extractFields_iff.mp hfields
    refine ⟨obj, f, hl, ht.signed.verified, ?_, ?_⟩
    · rw [← hex.edition, ht.edition]
    · intro nb hnb
      rw [hex.notBefore] at hnb
      exact ht.started nb (Except.ok.inj hnb)

/-! ## Two files with the same body -/

theorem accepted_cases {env : Environment} {cfg : LicenseConfig} (h : fromEnv F env = .ok cfg)
    (hs : cfg.status.isAccepted = true) {obj : Members F} {f : Fields} (hl : Loaded env obj f) :
    Trusted env obj f ∧ ∃ status, deriveTimeStatus f.expiresAt f.graceDays env.now = .ok status ∧
      cfg = f.accepted status := by
  rcases fromEnv_cases h with rfl | rfl | ⟨_, f', -, -, rfl⟩ | ⟨obj', f', st, hl', ht, hst, rfl⟩
  · cases hs
  · cases hs
  · cases hs
  · obtain ⟨rfl, rfl⟩ := loaded_unique hl hl'
    exact ⟨ht, st, hst, rfl⟩

variable (F) in
/-- Another accepted file with the same canonical body gives the same configuration. -/
def BodyDetermines (env : Environment) : Prop :=
  ∀ (content : Bytes) (cfg cfg' : LicenseConfig) (obj obj' : Members F) (f f' : Fields),
    Loaded env obj f → fromEnv F env = .ok cfg → cfg.status.isAccepted = true →
    Loaded (env.withContent content) obj' f' → fromEnv F (env.withContent content) = .ok cfg' →
    cfg'.status.isAccepted = true → canonicalBody obj' = canonicalBody obj → cfg' = cfg

end Authentic

section Order
variable {F : Type} [PyFloat F] [Unicode]

/-- Where the text of a field could show an order of members, there is none to
show; a module that could is spelled out as plain text in all its orders. -/
structure OrderIndependent (obj : Members F) : Prop where
  customerId : ∀ j, obj.get (lit "customer_id") = some j → j.OrderFree
  quotaTier : ∀ j, obj.get (lit "quota_tier") = some j → j.OrderFree
  modules : ∀ xs, obj.get (lit "entitled_modules") = some (.arr xs) →
    ∀ x ∈ xs, ¬ x.OrderFree → ∀ x', Reordering x x' → ∃ y ∈ xs, y.OrderFree ∧ y.pyStr = x'.pyStr

theorem intField_congr {obj obj' : Members F} {key : String}
    (h : (obj'.get (lit key)).map sorted = (obj.get (lit key)).map sorted) :
    intField obj' key = intField obj key := by
  have hint : ((obj'.get (lit key)).getD (.int 0)).pyInt = ((obj.get (lit key)).getD (.int 0)).pyInt := by
    cases hj : obj.get (lit key) with
    | none =>
      rw [hj, Option.map_none, Option.map_eq_none_iff] at h
      rw [h]
    | some j =>
      rw [hj, Option.map_some, Option.map_eq_some_iff] at h
      obtain ⟨j', hj', hsorted⟩ := h
      rw [hj', Option.getD_some, Option.getD_some, ← pyInt_sorted j', hsorted, pyInt_sorted]
  simp only [intField, hint]

theorem strItems_elems {xs xs' : List (Json F)} (hmap : xs'.map sorted = xs.map sorted)
    (hwf : ∀ x ∈ xs', WF x)
    (hcover : ∀ x ∈ xs, ¬ x.OrderFree → ∀ x', Reordering x x' →
      ∃ y ∈ xs, y.OrderFree ∧ y.pyStr = x'.pyStr) :
    (xs'.map pyStr).toFinset = (xs.map pyStr).toFinset := by
  have hto : ∀ x' ∈ xs', ∃ x ∈ xs, x'.sorted = x.sorted := by
    intro x' hx'
    have : x'.sorted ∈ xs.map sorted := hmap ▸ List.mem_map_of_mem hx'
    obtain ⟨x, hx, he⟩ := List.mem_map.mp this
    exact ⟨x, hx, he.symm⟩
  have hkept : ∀ y ∈ xs, y.OrderFree → y ∈ xs' := by
    intro y hy hfree
    have : y.sorted ∈ xs'.map sorted := hmap ▸ List.mem_map_of_mem hy
    obtain ⟨y', hy', he⟩ := List.mem_map.mp this
    exact eq_of_sorted_eq hfree he ▸ hy'
  ext text
  simp only [List.mem_toFinset, List.mem_map]
  constructor
  · rintro ⟨x', hx', rfl⟩
    obtain ⟨x, hx, he⟩ := hto x' hx'
    by_cases hfree : x.OrderFree
    · exact ⟨x, hx, by rw [eq_of_sorted_eq hfree he]⟩
    · obtain ⟨y, hy, -, htext⟩ := hcover x hx hfree x' (reordering_of_sorted_eq he (hwf x' hx'))
      exact ⟨y, hy, htext⟩
  · rintro ⟨x, hx, rfl⟩
    by_cases hfree : x.OrderFree
    · exact ⟨x, hkept x hx hfree, rfl⟩
    · obtain ⟨y, hy, hyfree, htext⟩ := hcover x hx hfree x (Reordering.refl x)
      exact ⟨y, hkept y hy hyfree, htext⟩

theorem modules_eq {obj obj' : Members F} (hwf' : WF (.obj obj')) (hind : OrderIndependent obj)
    (h : (obj'.get (lit "entitled_modules")).map sorted =
      (obj.get (lit "entitled_modules")).map sorted)
    {modules modules' : List Str} (hm : (rawModules obj).strItems = .ok modules)
    (hm' : (rawModules obj').strItems = .ok modules') :
    modules'.toFinset = modules.toFinset := by
  unfold rawModules at hm hm'
  cases hj : obj.get (lit "entitled_modules") with
  | none =>
    rw [hj, Option.map_none, Option.map_eq_none_iff] at h
    rw [hj] at hm
    rw [h] at hm'
    cases hm
    cases hm'
    rfl
  | some j =>
    rw [hj, Option.map_some, Option.map_eq_some_iff] at h
    obtain ⟨j', hj', hsorted⟩ := h
    have htruthy : j'.truthy = j.truthy := by
      rw [← truthy_sorted j', hsorted, truthy_sorted]
    have hwfj : WF j' :=
      (wfMembers_iff.mp hwf'.2 _ ((Members.get_eq_some_iff hwf'.1 _ _).mp hj')).2
    simp only [hj] at hm
    simp only [hj', htruthy] at hm'
    by_cases ht : j.truthy = true
    · rw [if_pos ht] at hm hm'
      -- the two values have the same outermost constructor
      cases j with
      | arr xs =>
        cases j' <;> simp only [sorted, reduceCtorEq, Json.arr.injEq] at hsorted
        rw [sortedElems_eq_map, sortedElems_eq_map] at hsorted
        cases hm
        cases hm'
        exact strItems_elems hsorted (wfElems_iff.mp hwfj) (hind.modules _ hj)
      | obj m =>
        cases j' <;> simp only [sorted, reduceCtorEq] at hsorted
        cases hm
        cases hm'
        exact List.toFinset_eq_of_perm _ _ (keys_perm_of_sorted_eq hsorted)
      | str s =>
        cases j' <;> simp only [sorted, reduceCtorEq, Json.str.injEq] at hsorted
        subst hsorted
        rw [hm] at hm'
        rw [Except.ok.inj hm']
      | null | bool | int | float => cases hm
    · rw [if_neg ht] at hm hm'
      rw [hm] at hm'
      rw [Except.ok.inj hm']

/-- Fields of two objects with the same sorted values, given the same edition. -/
theorem fields_eq {obj obj' : Members F} {f f' : Fields} (hwf' : WF (.obj obj'))
    (hind : OrderIndependent obj)
    (h : ∀ k, k ≠ signatureField → (obj'.get k).map sorted = (obj.get k).map sorted)
    (hf : Extracted obj f) (hf' : Extracted obj' f') (hed : f'.edition = f.edition) : f' = f := by
  have hcustomer := Members.get_eq_of_orderFree hind.customerId (h (lit "customer_id") (by decide))
  have htier := Members.get_eq_of_orderFree hind.quotaTier (h (lit "quota_tier") (by decide))
  have hexp := (parseTs_sorted (obj'.get (lit "expires_at"))).symm
  rw [h (lit "expires_at") (by decide), parseTs_sorted, hf'.expiresAt, hf.expiresAt] at hexp
  have hnb := (parseTs_sorted (obj'.get (lit "not_before"))).symm
  rw [h (lit "not_before") (by decide), parseTs_sorted, hf'.notBefore, hf.notBefore] at hnb
  have hgrace : intField obj' "grace_days" = intField obj "grace_days" :=
    intField_congr (h (lit "grace_days") (by decide))
  rw [hf'.graceDays, hf.graceDays] at hgrace
  have hseats : intField obj' "seats" = intField obj "seats" :=
    intField_congr (h (lit "seats") (by decide))
  rw [hf'.seats, hf.seats] at hseats
  obtain ⟨modules, hm, hmf⟩ := hf.entitledModules
  obtain ⟨modules', hm', hmf'⟩ := hf'.entitledModules
  have hmods := modules_eq hwf' hind (h (lit "entitled_modules") (by decide)) hm hm'
  have hcid : f'.customerId = f.customerId := by
    rw [hf'.customerId, hf.customerId, strField, strField, hcustomer]
  have hqt : f'.quotaTier = f.quotaTier := by
    rw [hf'.quotaTier, hf.quotaTier, quotaTierField, quotaTierField, htier]
  cases f
  cases f'
  simp_all

end Order

section Reload
variable {F : Type} [PyFloat F] [Cryptography] [Unicode]

/-- The fields whose text `str` makes. -/
def renderedFields : List Str := [lit "customer_id", lit "quota_tier", lit "entitled_modules"]

/-- A file with one rendered field reordered is loaded and trusted like the original. -/
theorem reload [LawfulPyFloat F] {env : Environment} {obj : Members F} {f : Fields}
    (hl : Loaded env obj f) (ht : Trusted env obj f) {k : Str} (hk : k ∈ renderedFields)
    {j j' : Json F} (hget : obj.get k = some j) (hre : Reordering j j') {modules : List Str}
    (hm : (rawModules (obj.set k j')).strItems = .ok modules) :
    ∃ content f', Loaded (env.withContent content) (obj.set k j') f' ∧
      Trusted (env.withContent content) (obj.set k j') f' ∧
      canonicalBody (obj.set k j') = canonicalBody obj ∧
      f' = { f with
        customerId := strField (obj.set k j') "customer_id"
        quotaTier := quotaTierField (obj.set k j')
        entitledModules := modules.toFinset } := by
  obtain ⟨content, hfile, hread, hfields⟩ := hl
  have hex := extractFields_iff.mp hfields
  have hother : ∀ key, key ∉ renderedFields → (obj.set k j').get key = obj.get key := by
    intro key hkey
    exact Members.get_set_of_ne fun he => hkey (he ▸ hk)
  have hsigne : k ≠ signatureField := by
    rintro rfl
    exact absurd hk (by decide)
  have hbound := bounded_set (readLicense_bounded hread) hget hre
  have hbody := canonicalBody_set (readLicense_bounded hread).1 hbound.1 hsigne hget hre.sorted
  refine ⟨writeJson (.obj (obj.set k j')), { f with
    customerId := strField (obj.set k j') "customer_id"
    quotaTier := quotaTierField (obj.set k j')
    entitledModules := modules.toFinset }, ⟨_, licenseFile_withContent hfile _,
    readLicense_writeJson hbound, extractFields_iff.mpr ⟨rfl, ?_, ?_, ?_, ?_, ?_, rfl,
      modules, hm, rfl⟩⟩, ⟨?_, ht.edition, ht.started⟩, hbody, rfl⟩
  · rw [hex.edition, strField, strField, hother _ (by decide)]
  · rw [hother _ (by decide), hex.expiresAt]
  · rw [hother _ (by decide), hex.notBefore]
  · rw [intField, hother _ (by decide)]
    exact hex.graceDays
  · rw [intField, hother _ (by decide)]
    exact hex.seats
  · obtain ⟨signature, pem, hsig, hpem, htruthy, hne, hverify⟩ := ht.signed
    refine ⟨signature, pem, ?_, hpem, htruthy, hne, ?_⟩
    · rw [hother _ (by decide), hsig]
    · simpa only [signatureVerifies, hbody] using hverify

/-- The configuration of the original and of the reordered file agree. -/
theorem BodyDetermines.reload_eq [LawfulPyFloat F] {env : Environment} (h : BodyDetermines F env)
    {obj : Members F} {f : Fields} {status : LicenseStatus} (hl : Loaded env obj f)
    (ht : Trusted env obj f)
    (hst : deriveTimeStatus f.expiresAt f.graceDays env.now = .ok status) {k : Str}
    (hk : k ∈ renderedFields) {j j' : Json F} (hget : obj.get k = some j) (hre : Reordering j j')
    {modules : List Str} (hm : (rawModules (obj.set k j')).strItems = .ok modules) :
    strField (obj.set k j') "customer_id" = f.customerId ∧
      quotaTierField (obj.set k j') = f.quotaTier ∧ modules.toFinset = f.entitledModules := by
  obtain ⟨content, f', hl', ht', hbody, rfl⟩ := reload hl ht hk hget hre hm
  have hret : fromEnv F env = .ok (f.accepted status) := by
    rw [fromEnv_of_loaded hl, judge_of_trusted ht, hst]
    rfl
  have hret' := fromEnv_of_loaded hl'
  rw [judge_of_trusted ht'] at hret'
  simp only [Environment.withContent, hst] at hret'
  have hacc := isAccepted_of_derived hst
  have heq := h content _ _ obj _ f _ hl hret hacc hl' hret' hacc hbody
  simp only [Fields.accepted, LicenseConfig.mk.injEq, true_and] at heq
  exact ⟨heq.1, heq.2.2.1, heq.2.1⟩

theorem orderIndependent_of_bodyDetermines [LawfulPyFloat F] {env : Environment}
    (h : BodyDetermines F env) {obj : Members F} {f : Fields} {status : LicenseStatus}
    (hl : Loaded env obj f) (ht : Trusted env obj f)
    (hst : deriveTimeStatus f.expiresAt f.graceDays env.now = .ok status) :
    OrderIndependent obj := by
  obtain ⟨content, -, hread, hfields⟩ := id hl
  have hex := extractFields_iff.mp hfields
  have hbound := readLicense_bounded hread
  have hwf : ∀ k j, obj.get k = some j → WF j := fun k j hj =>
    (wfMembers_iff.mp hbound.1.2 _ ((Members.get_eq_some_iff hbound.1.1 _ _).mp hj)).2
  obtain ⟨modules, hm, hmf⟩ := hex.entitledModules
  have hraw : ∀ (k : Str) (j' : Json F), k ≠ lit "entitled_modules" →
      (rawModules (obj.set k j')).strItems = .ok modules := by
    intro k j' hk
    rw [rawModules, Members.get_set_of_ne hk]
    exact hm
  refine ⟨?_, ?_, ?_⟩
  · intro j hj
    by_contra hfree
    obtain ⟨j', hre, hne⟩ := exists_reordering_str (hwf _ _ hj) hfree
    have heq := (h.reload_eq hl ht hst (by decide) hj hre (hraw _ j' (by decide))).1
    rw [hex.customerId, strField, strField, Members.get_set_self, hj] at heq
    exact hne heq
  · intro j hj
    by_contra hfree
    obtain ⟨j', hre, hne⟩ := exists_reordering_str (hwf _ _ hj) hfree
    have heq := (h.reload_eq hl ht hst (by decide) hj hre (hraw _ j' (by decide))).2.1
    have hnull : ∀ i : Json F, ¬ OrderFree i → quotaTierField (obj.set (lit "quota_tier") i) =
        some i.pyStr := by
      intro i hi
      rw [quotaTierField, Members.get_set_self]
      cases i with
      | null => exact absurd trivial hi
      | _ => rfl
    have hfree' : ¬ OrderFree j' := by
      rw [← orderFree_sorted, hre.sorted, orderFree_sorted]
      exact hfree
    have hself : quotaTierField obj = some j.pyStr := by
      rw [quotaTierField, hj]
      cases j with
      | null => exact absurd trivial hfree
      | _ => rfl
    rw [hex.quotaTier, hself, hnull j' hfree'] at heq
    exact hne (Option.some.inj heq)
  · intro xs hxs x hx hfree x' hre
    by_contra hcover
    simp only [not_exists, not_and] at hcover
    have hitems : ∀ ys : List (Json F), ys ≠ [] →
        (rawModules (obj.set (lit "entitled_modules") (.arr ys))).strItems = .ok (ys.map pyStr) := by
      intro ys hys
      have htrue : (Json.arr ys).truthy = true := by
        cases ys with
        | nil => exact absurd rfl hys
        | cons y ys => rfl
      rw [rawModules, Members.get_set_self]
      simp only [htrue, if_true, strItems]
    have hwfx : ∀ y ∈ xs, WF y := wfElems_iff.mp (hwf _ _ hxs)
    -- one file that shows the text of `x'`, one that avoids it
    obtain ⟨as, bs, rfl⟩ := List.append_of_mem hx
    have hshow := (h.reload_eq hl ht hst (by decide) hxs (reordering_arr hre as bs)
      (hitems _ (by simp))).2.2
    obtain ⟨ys, hys, havoid⟩ := exists_elems_avoiding hwfx hcover
    have hne : ys ≠ [] := by
      rintro rfl
      have := hys.length_eq
      simp at this
    have hhide := (h.reload_eq hl ht hst (by decide) hxs (reordering_elems hys) (hitems ys hne)).2.2
    have hmem : x'.pyStr ∈ f.entitledModules := by
      rw [← hshow, List.mem_toFinset]
      exact List.mem_map_of_mem (List.mem_append_right _ List.mem_cons_self)
    rw [← hhide, List.mem_toFinset, List.mem_map] at hmem
    obtain ⟨y, hy, he⟩ := hmem
    exact havoid y hy he

/-- A license is authentic and determined by its signed body exactly when no
accepted object hides an order of members in a rendered field. -/
theorem authentic_and_determined_iff [LawfulPyFloat F] (env : Environment) :
    (Authentic F env ∧ BodyDetermines F env) ↔
      ∀ (obj : Members F) (f : Fields) (status : LicenseStatus), Loaded env obj f →
        Trusted env obj f → deriveTimeStatus f.expiresAt f.graceDays env.now = .ok status →
        OrderIndependent obj := by
  constructor
  · rintro ⟨-, h⟩ obj f status hl ht hst
    exact orderIndependent_of_bodyDetermines h hl ht hst
  · intro h
    refine ⟨authentic env, ?_⟩
    intro content cfg cfg' obj obj' f f' hl hret hacc hl' hret' hacc' hbody
    obtain ⟨ht, status, hst, rfl⟩ := accepted_cases hret hacc hl
    obtain ⟨ht', status', hst', rfl⟩ := accepted_cases hret' hacc' hl'
    obtain ⟨c, -, hread, hfields⟩ := id hl
    obtain ⟨c', -, hread', hfields'⟩ := id hl'
    have hwf := (readLicense_bounded hread).1
    have hwf' := (readLicense_bounded hread').1
    have hed : f'.edition = f.edition := ht'.edition.trans ht.edition.symm
    have hff := fields_eq hwf' (h obj f status hl ht hst)
      (fun k hk => get_of_canonicalBody_eq hwf hwf' hbody hk) (extractFields_iff.mp hfields)
      (extractFields_iff.mp hfields') hed
    subst hff
    simp only [Environment.withContent] at hst'
    rw [hst] at hst'
    rw [Except.ok.inj hst']

end Reload

section TwoOrders
attribute [local instance] asciiUnicode mirrorCryptography

/-- The members of a customer object, in the two orders they can be written. -/
def customerAB : Json Unit := .obj [(lit "a", .int 1), (lit "b", .int 2)]
def customerBA : Json Unit := .obj [(lit "b", .int 2), (lit "a", .int 1)]

def unsignedLicense (customer : Json Unit) : Members Unit :=
  [(lit "customer_id", customer), (lit "edition", .str (lit "on-prem-lite"))]

def signedLicense (customer : Json Unit) : Members Unit :=
  unsignedLicense customer ++ [(signatureField, .str (b64encode
    (0 :: writeJson (sorted (.obj (unsignedLicense customer))))))]

def licensedEnvironment (customer : Json Unit) : Environment where
  getenv k :=
    if k = lit "ISA_LICENSE_FILE" then some (lit "license.json")
    else if k = lit "ISA_LICENSE_PUBKEY" then some (lit "PEM")
    else none
  file _ := some (some (writeJson (.obj (signedLicense customer))))
  now := 0
  resolvedEdition := none
  nesting := 2
  nesting_pos := Environment.least_nesting

def licensedFields (customer : Json Unit) : Fields :=
  ⟨customer.pyStr, lit "on-prem-lite", none, none, 0, 0, none, ∅⟩

theorem signedLicense_bounded {customer : Json Unit} (h : Bounded 1 customer) :
    Bounded 2 (.obj (signedLicense customer)) := by
  have hsig : ∀ bs, splitFree (b64encode bs) = true := fun bs =>
    splitFree_of_plain (b64encode_plain bs)
  have hkeys : [lit "customer_id", lit "edition", signatureField].Nodup := by decide
  have hc : splitFree (lit "customer_id") = true := by decide
  have he : splitFree signatureField = true := by decide
  refine bounded_obj.mpr ⟨hkeys, ?_⟩
  intro kv hkv
  simp only [signedLicense, unsignedLicense, List.cons_append, List.nil_append, List.mem_cons,
    List.not_mem_nil, or_false] at hkv
  rcases hkv with rfl | rfl | rfl
  · exact ⟨hc, h⟩
  · exact ⟨by decide, by simp only [WF]; decide, Nat.zero_le 1⟩
  · exact ⟨he, hsig _, Nat.zero_le 1⟩

theorem customer_bounded {a b : Str × Json Unit} (hk : a.1 ≠ b.1) (ha : splitFree a.1 = true)
    (hb : splitFree b.1 = true) (hva : Bounded 0 a.2) (hvb : Bounded 0 b.2) :
    Bounded 1 (.obj [a, b]) := by
  refine bounded_obj.mpr ⟨by simp [Members.keys, hk], ?_⟩
  intro kv hkv
  simp only [List.mem_cons, List.not_mem_nil, or_false] at hkv
  rcases hkv with rfl | rfl
  · exact ⟨ha, hva⟩
  · exact ⟨hb, hvb⟩

theorem licensed_loaded {customer : Json Unit} (h : Bounded 1 customer) :
    Loaded (licensedEnvironment customer) (signedLicense customer) (licensedFields customer) :=
  ⟨_, rfl, readLicense_writeJson (signedLicense_bounded h), rfl⟩

/-- A license with a customer name of plain text. -/
theorem authentic_and_determined_plain : LawfulPyFloat Unit ∧
    Authentic Unit (licensedEnvironment (.str (lit "acme"))) ∧
    BodyDetermines Unit (licensedEnvironment (.str (lit "acme"))) := by
  have hb : Bounded 1 (.str (lit "acme") : Json Unit) := ⟨by simp only [WF]; decide, Nat.zero_le 1⟩
  refine ⟨inferInstance, (authentic_and_determined_iff _).mpr ?_⟩
  intro obj f status hl _ _
  obtain ⟨rfl, -⟩ := loaded_unique (licensed_loaded hb) hl
  refine ⟨?_, ?_, ?_⟩
  · intro j hj
    cases hj
    trivial
  · intro j hj
    cases hj
  · intro xs hxs
    cases hxs

/-- Two files with one body and one signature, and two customers. -/
theorem order_shows_in_customer :
    ¬ (Authentic Unit (licensedEnvironment customerAB) ∧
      BodyDetermines Unit (licensedEnvironment customerAB)) := by
  rintro ⟨-, h⟩
  have hone : Bounded 0 (.int 1 : Json Unit) := ⟨by simp only [WF]; decide, Nat.le_refl 0⟩
  have htwo : Bounded 0 (.int 2 : Json Unit) := ⟨by simp only [WF]; decide, Nat.le_refl 0⟩
  have hab : Bounded 1 customerAB := customer_bounded (by decide) rfl rfl hone htwo
  have hba : Bounded 1 customerBA := customer_bounded (by decide) rfl rfl htwo hone
  have hret : fromEnv Unit (licensedEnvironment customerAB) =
      .ok ((licensedFields customerAB).accepted .valid) := by decide +kernel
  have hret' : fromEnv Unit (licensedEnvironment customerBA) =
      .ok ((licensedFields customerBA).accepted .valid) := by decide +kernel
  have hbody : canonicalBody (signedLicense customerBA) = canonicalBody (signedLicense customerAB) := by
    decide +kernel
  have heq := h (writeJson (.obj (signedLicense customerBA))) _ _ _ _ _ _ (licensed_loaded hab) hret
    rfl (licensed_loaded hba) hret' rfl hbody
  exact absurd (congrArg LicenseConfig.customerId heq) (by decide)

end TwoOrders

end IsaCloud.License
