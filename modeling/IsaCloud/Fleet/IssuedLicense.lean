import IsaCloud.Fleet.Issuance
import IsaCloud.License.RoundTrip

/-!
# What an issued license is worth to the loader

The license of a successful `issue`, written as JSON in any layout and loaded
under the matching key. Issuer and loader read timestamps and canonical bytes
alike; they part on the edition: the issuer signs the text it was given, the
loader compares it with the canonical name of the edition that `ISA_EDITION`
selects.
-/

namespace IsaCloud.Fleet

set_option autoImplicit false

open Support Support.Text Support.Python Support.DateTime Support.IsoTime Support.Encoding
  Support.Base64 Support.Json License

/-- The request body of `POST /issue`, less the key: no empty customer or
edition, and text is valid Unicode. -/
structure IssueBody where
  customerId : Str
  edition : Str
  entitledModules : List Str := []
  quotaTier : Option Str := none
  expiresAt : Option Str := none
  notBefore : Option Str := none
  graceDays : Int := 0
  seats : Int := -1
  licenseId : Option Str := none
  delivery : Option Str := none
  customerId_ne : customerId ≠ []
  edition_ne : edition ≠ []
  plain : ∀ s ∈ customerId :: edition :: (entitledModules ++ quotaTier.toList), Plain s

def IssueBody.toRequest (body : IssueBody) : IssuanceRequest where
  customerId := body.customerId
  edition := body.edition
  entitledModules := body.entitledModules
  quotaTier := body.quotaTier
  expiresAt := body.expiresAt.map .text
  notBefore := body.notBefore.map .text
  graceDays := body.graceDays
  seats := body.seats
  licenseId := body.licenseId
  delivery := body.delivery

/-- The instant that `expires_at` asks for. -/
def IssueBody.expiry (body : IssueBody) : Option Instant :=
  match parseTs (body.expiresAt.map .text) with
  | .ok (some d) => (toUtc d).toOption
  | _ => none

/-! ## Timestamps -/

theorem isoText_ascii (t : Instant) : Ascii (isoText t) := by
  have hdigit : ∀ c : CodePoint, isDigit c = true → c.val < 0x80 := by
    intro c hc
    have := of_decide_eq_true hc
    omega
  have hpad : ∀ w n, Ascii (padText w n) := fun w n c hc => hdigit c (isDigit_of_mem_padText hc)
  have hyear : Ascii (natText (dateOf t).year) := fun c hc => hdigit c (isDigit_of_mem_natText hc)
  have hclock : Ascii (clockText t) := by
    intro c hc
    rcases mem_clockText hc with h | rfl
    · exact hdigit c h
    · decide
  have hdate : Ascii (dateText (natText (dateOf t).year) t) :=
    hyear.append (.cons (by decide) ((hpad 2 _).append (.cons (by decide) (hpad 2 _))))
  exact hdate.append (.cons (by decide) (hclock.append (.cons (by decide) fun c hc => nomatch hc)))

theorem splitFree_of_ascii {s : Str} (h : Ascii s) : splitFree s = true := by
  apply splitFree_of_plain
  intro c hc
  have := h c hc
  exact ⟨decide_eq_false (by omega), decide_eq_false (by omega)⟩

/-- The zone of a written timestamp spelled out. -/
theorem spelled_isoText (t : Instant) : spellZulu (strip (isoText t)) =
    dateText (natText (dateOf t).year) t ++ cp 'T' :: (clockText t ++ lit "+00:00") := by
  obtain ⟨c, ds, hyear⟩ : ∃ c ds, natText (dateOf t).year = c :: ds := by
    cases h : natText (dateOf t).year with
    | nil => exact absurd h (natText_ne_nil _)
    | cons c ds => exact ⟨c, ds, rfl⟩
  have hdigit : isDigit c = true := isDigit_of_mem_natText (hyear ▸ List.mem_cons_self)
  have hfirst : isSpace c = false := by
    have := of_decide_eq_true hdigit
    exact decide_eq_false (by omega)
  have hlast : isSpace (cp 'Z') = false := by decide
  have hform : isoText t = c :: (ds ++ dash :: (padText 2 (dateOf t).month ++ dash ::
      padText 2 (dateOf t).day) ++ cp 'T' :: (clockText t ++ [cp 'Z'])) := by
    rw [isoText, dateText, hyear]
    rfl
  have hstrip : strip (isoText t) = isoText t := by
    have hdrop : (isoText t).dropWhile isSpace = isoText t := by
      rw [hform, List.dropWhile_cons, hfirst]
      rfl
    have hrev : (isoText t).reverse = cp 'Z' :: ((dateText (natText (dateOf t).year) t ++
        cp 'T' :: clockText t).reverse) := by
      simp [isoText]
    rw [strip, hdrop, hrev, List.dropWhile_cons, hlast, ← hrev]
    simp
  have hrev : (isoText t).reverse = cp 'Z' :: ((dateText (natText (dateOf t).year) t ++
      cp 'T' :: clockText t).reverse) := by
    simp [isoText]
  rw [hstrip, spellZulu, hrev]
  simp

/-- A written timestamp reads back as its whole second, if it reads back at all. -/
theorem specInstant_isoText {t x : Instant} (ht : t < maxInstant)
    (h : specInstant (isoText t) = .ok x) :
    x = wholeSecond t ∧
      fromisoformat (spellZulu (strip (isoText t))) = .ok ⟨wholeSecond t, some 0⟩ := by
  rw [specInstant, parseTs, spelled_isoText] at h
  rw [spelled_isoText]
  by_cases hyear : 1000 ≤ (dateOf t).year
  · have hread := fromisoformat_dateText hyear (year_le ht)
    rw [hread] at h ⊢
    refine ⟨?_, rfl⟩
    have hutc : astimezone (wholeSecond t) 0 = .ok x := h
    rw [astimezone_utc (Nat.lt_of_le_of_lt (wholeSecond_le t) ht)] at hutc
    exact (Except.ok.inj hutc).symm
  · have hlen : (natText (dateOf t).year).length < 4 :=
      Nat.lt_succ_of_le (natText_length_le (by omega) (by omega))
    rw [fromisoformat_short_year hlen] at h
    cases h

theorem loader_reads {F : Type} [PyFloat F] {s : Str} {d : PyDateTime} {t : Instant} (hs : s ≠ [])
    (hread : fromisoformat (spellZulu (strip s)) = .ok d) (hutc : toUtc d = .ok t) :
    License.parseTs (some (.str s : Json F)) = .ok (some t) := by
  have htruthy : (Json.str s : Json F).truthy = true := by
    rw [truthy, Bool.not_eq_true', List.isEmpty_eq_false_iff]
    exact hs
  simp only [License.parseTs, htruthy, Bool.true_eq_false, if_false, hread, hutc]

/-- The loader reads the issuer's timestamps as the ledger does. -/
theorem loader_isoText {F : Type} [PyFloat F] {t x : Instant} (ht : t < maxInstant)
    (h : specInstant (isoText t) = .ok x) :
    License.parseTs (some (.str (isoText t) : Json F)) = .ok (some (wholeSecond t)) := by
  obtain ⟨-, hread⟩ := specInstant_isoText ht h
  have hlt : wholeSecond t < maxInstant := Nat.lt_of_le_of_lt (wholeSecond_le t) ht
  refine loader_reads ?_ hread (astimezone_utc hlt)
  intro hnil
  exact List.cons_ne_nil _ _ (List.append_eq_nil_iff.mp hnil).2

theorem parseTs_aware {v : Option TimeArg} {d : PyDateTime} (h : parseTs v = .ok (some d)) :
    ∃ o, d.offset = some o := by
  unfold parseTs at h
  split at h
  · cases h
  · cases h
    exact ⟨_, rfl⟩
  · split at h
    · cases h
      exact ⟨_, rfl⟩
    · cases h

theorem toUtc_lt {d : PyDateTime} {o : Int} {t : Instant} (hd : d.offset = some o)
    (h : toUtc d = .ok t) : t < maxInstant := by
  rw [toUtc, hd] at h
  exact checkInstant_ok h

/-! ## The spec and the draft -/

/-- The instant that `expires_at` asks for. -/
def IssuanceRequest.expiry (req : IssuanceRequest) : Option Instant :=
  match parseTs req.expiresAt with
  | .ok (some d) => (toUtc d).toOption
  | _ => none

/-- What a spec holds of the request, with the instants behind its timestamps. -/
structure Specified (req : IssuanceRequest) (spec : Spec) (nb : Instant) : Prop where
  customerId : spec.customerId = req.customerId
  edition : spec.edition = req.edition
  entitledModules : spec.entitledModules = req.entitledModules
  quotaTier : spec.quotaTier = req.quotaTier
  graceDays : spec.graceDays = req.graceDays
  notBefore : spec.notBefore = isoText nb
  notBefore_lt : nb < maxInstant
  expiresAt : spec.expiresAt = req.expiry.map isoText
  expiresAt_lt : ∀ e, req.expiry = some e → e < maxInstant

/-- The same for the body of a request. -/
structure Built (body : IssueBody) (spec : Spec) (nb : Instant) : Prop where
  customerId : spec.customerId = body.customerId
  edition : spec.edition = body.edition
  entitledModules : spec.entitledModules = body.entitledModules
  quotaTier : spec.quotaTier = body.quotaTier
  notBefore : spec.notBefore = isoText nb
  notBefore_lt : nb < maxInstant
  expiresAt : spec.expiresAt = body.expiry.map isoText
  expiresAt_lt : ∀ e, body.expiry = some e → e < maxInstant

theorem iso_ok {d : PyDateTime} {text : Str} (h : iso d = .ok text) :
    ∃ t, toUtc d = .ok t ∧ text = isoText t := by
  unfold iso at h
  split at h
  · rename_i t ht
    exact ⟨t, ht, (Except.ok.inj h).symm⟩
  · cases h

theorem specified_of_buildSpec {req : IssuanceRequest} {now : Instant} {spec : Spec}
    (h : buildSpec req now = .ok spec) : ∃ nb, Specified req spec nb := by
  unfold buildSpec at h
  split at h
  · cases h
  · split at h
    · cases h
    · rename_i notBefore hnb
      split at h
      · cases h
      · rename_i expires hexp
        split at h
        · rename_i nbText expText hnbText hexpText
          have hspec := Except.ok.inj h
          obtain ⟨nb, hnbUtc, rfl⟩ := iso_ok hnbText
          have hexpiry : expText = req.expiry.map isoText ∧
              ∀ e, req.expiry = some e → e < maxInstant := by
            cases expires with
            | none =>
              have hnone : req.expiry = none := by
                rw [IssuanceRequest.expiry, hexp]
              rw [hnone]
              exact ⟨(Except.ok.inj hexpText).symm, fun e he => nomatch he⟩
            | some d =>
              obtain ⟨o, ho⟩ := parseTs_aware hexp
              cases hiso : iso d with
              | error e =>
                rw [Option.mapM_some, hiso] at hexpText
                cases hexpText
              | ok text =>
                obtain ⟨e, he, rfl⟩ := iso_ok hiso
                rw [Option.mapM_some, hiso] at hexpText
                have hsome : req.expiry = some e := by
                  simp only [IssuanceRequest.expiry, hexp, he]
                  rfl
                rw [hsome]
                refine ⟨(Except.ok.inj hexpText).symm, ?_⟩
                rintro e' he'
                rw [← Option.some.inj he']
                exact toUtc_lt ho he
          have hnbLt : nb < maxInstant := by
            cases notBefore with
            | none => exact toUtc_lt (o := 0) rfl hnbUtc
            | some d =>
              obtain ⟨o, ho⟩ := parseTs_aware hnb
              exact toUtc_lt ho hnbUtc
          refine ⟨nb, ?_⟩
          subst hspec
          exact ⟨rfl, rfl, rfl, rfl, rfl, rfl, hnbLt, hexpiry.1, hexpiry.2⟩
        · cases h
        · cases h

theorem built_of_buildSpec {body : IssueBody} {now : Instant} {spec : Spec}
    (h : buildSpec body.toRequest now = .ok spec) : ∃ nb, Built body spec nb := by
  obtain ⟨nb, hs⟩ := specified_of_buildSpec h
  exact ⟨nb, hs.customerId, hs.edition, hs.entitledModules, hs.quotaTier, hs.notBefore, hs.notBefore_lt,
    hs.expiresAt, hs.expiresAt_lt⟩

section Draft
variable {F : Type} [PyFloat F] [Cryptography] [Unicode]

/-- A successful call committed what it drafted. -/
theorem issue_commits {ambient : Ambient} {priv : Option Cryptography.PrivateKey}
    {req : IssuanceRequest} {db db' : Database F} {result : IssuanceResult F}
    (h : Session.exec (issue F ambient priv req) db = (db', .ok result)) :
    ∃ spec, buildSpec req ambient.now = .ok spec ∧ draft F ambient priv spec req.delivery = .ok result ∧
      applyWrites db result.writes = .ok db' := by
  cases hspec : buildSpec req ambient.now with
  | error e =>
    rw [issue, hspec] at h
    cases h
  | ok spec =>
    cases hdraft : draft F ambient priv spec req.delivery with
    | error e =>
      rw [issue, hspec, Proc.attempt_ok, hdraft] at h
      cases h
    | ok drafted =>
      have hexec : Session.exec (Session.commitThen drafted.writes drafted) db =
          (db', .ok result) := by
        rwa [issue, hspec, Proc.attempt_ok, hdraft, Proc.attempt_ok] at h
      rw [Session.exec_commitThen] at hexec
      split at hexec
      · rename_i stored hstored
        obtain ⟨rfl, hresult⟩ := Prod.mk.inj hexec
        obtain rfl := Except.ok.inj hresult
        exact ⟨spec, rfl, hdraft, hstored⟩
      · cases hexec

/-- A successful call built a spec, signed it and read its timestamps back. -/
theorem issue_ok {ambient : Ambient} {priv : Option Cryptography.PrivateKey}
    {req : IssuanceRequest} {db db' : Database F} {result : IssuanceResult F}
    (h : Session.exec (issue F ambient priv req) db = (db', .ok result)) :
    ∃ spec key, buildSpec req ambient.now = .ok spec ∧ priv = some key ∧
      signLicense spec.toMembers key = .ok result.license ∧
      specInstant spec.notBefore = .ok result.ledgerRow.notBefore ∧
      spec.expiresAt.mapM specInstant = .ok result.ledgerRow.expiresAt := by
  obtain ⟨spec, hspec, hdraft, -⟩ := issue_commits h
  obtain ⟨key, _, _, _, hkey, hsigned, hnotBefore, hexpiresAt, rfl⟩ := draft_ok hdraft
  exact ⟨spec, key, hspec, hkey, hsigned, hnotBefore, hexpiresAt⟩

end Draft

/-! ## The license as the loader sees it -/

section Members
variable {F : Type}

theorem get_joinedMembers (m : Members F) (k : Str) :
    Members.get (joinedMembers m) k = (m.get k).map joined := by
  induction m with
  | nil => rfl
  | cons kv m ih =>
    obtain ⟨k', v⟩ := kv
    simp only [joinedMembers, Members.get]
    split
    · rfl
    · exact ih

theorem get_append_ne {m : Members F} {k key : Str} {v : Json F} (h : k ≠ key) :
    Members.get (m ++ [(key, v)]) k = m.get k := by
  induction m with
  | nil =>
    have : key ≠ k := fun he => h he.symm
    simp only [List.nil_append, Members.get, this, if_false]
  | cons kv m ih =>
    obtain ⟨k', v'⟩ := kv
    simp only [List.cons_append, Members.get, ih]

variable (spec : Spec)

/-- The keys of a spec, all of them plain text. -/
theorem spec_keys : (spec.toMembers : Members F).keys.Sublist
    [lit "license_id", lit "customer_id", lit "edition", lit "issued_at", lit "not_before",
      lit "grace_days", lit "entitled_modules", lit "quota_tier", lit "seats", lit "expires_at"] := by
  obtain ⟨-, -, -, -, -, -, -, quotaTier, -, expiresAt⟩ := spec
  cases quotaTier <;> cases expiresAt <;> simp [Spec.toMembers, Members.keys]

theorem spec_values {kv : Str × Json F} (h : kv ∈ (spec.toMembers : Members F)) :
    (∃ s, kv.2 = .str s) ∨ (∃ n, kv.2 = .int n) ∨ kv.2 = .arr (spec.entitledModules.map .str) := by
  simp only [Spec.toMembers, List.mem_append, List.mem_cons, List.not_mem_nil, or_false] at h
  rcases h with ((h | h) | rfl) | h
  · rcases h with rfl | rfl | rfl | rfl | rfl | rfl | rfl
    · exact .inl ⟨_, rfl⟩
    · exact .inl ⟨_, rfl⟩
    · exact .inl ⟨_, rfl⟩
    · exact .inl ⟨_, rfl⟩
    · exact .inl ⟨_, rfl⟩
    · exact .inr (.inl ⟨_, rfl⟩)
    · exact .inr (.inr rfl)
  · split at h
    · rw [List.mem_singleton.mp h]
      exact .inl ⟨_, rfl⟩
    · cases h
  · exact .inr (.inl ⟨_, rfl⟩)
  · split at h
    · rw [List.mem_singleton.mp h]
      exact .inl ⟨_, rfl⟩
    · cases h

theorem spec_key_plain {kv : Str × Json F} (h : kv ∈ (spec.toMembers : Members F)) :
    splitFree kv.1 = true ∧ kv.1 ≠ signatureField := by
  have hall : [lit "license_id", lit "customer_id", lit "edition", lit "issued_at",
      lit "not_before", lit "grace_days", lit "entitled_modules", lit "quota_tier", lit "seats",
      lit "expires_at"].all (fun k => splitFree k && k != signatureField) = true := by
    decide
  have hmem := (spec_keys (F := F) spec).subset (List.mem_map_of_mem (f := Prod.fst) h)
  have hk := List.all_eq_true.mp hall _ hmem
  simpa using hk

theorem spec_without : (spec.toMembers : Members F).without signatureField = spec.toMembers := by
  apply List.filter_eq_self.mpr
  intro kv hkv
  simpa using (spec_key_plain spec hkv).2

variable [PyFloat F] [Cryptography]

/-- An issued license can be written and read back. -/
theorem license_admissible {license : Members F} {key : Cryptography.PrivateKey}
    (h : signLicense spec.toMembers key = .ok license) : Admissible 1 license := by
  have hspec : Admissible 1 (spec.toMembers : Members F) := by
    refine ⟨?_, ?_⟩
    · exact List.Nodup.sublist (spec_keys (F := F) spec) (by decide)
    · intro kv hkv
      obtain ⟨hplain, hne⟩ := spec_key_plain spec hkv
      have hfit := signLicense_fits h hkv hne
      refine ⟨hplain, ?_⟩
      rcases spec_values spec hkv with ⟨s, hs⟩ | ⟨n, hn⟩ | hm
      · rw [hs]
        exact ⟨trivial, Nat.zero_le 1⟩
      · rw [hn] at hfit ⊢
        have hdigits : (natText n.natAbs).length ≤ intMaxStrDigits := of_decide_eq_true hfit
        exact ⟨hdigits, Nat.zero_le 1⟩
      · rw [hm]
        exact admissible_modules (Nat.le_refl 1) (some spec.entitledModules) _ rfl
  simp only [signLicense] at h
  split at h
  · cases h
  · rw [← Except.ok.inj h]
    exact (hspec.without signatureField).set (v := .str _) rfl trivial (Nat.zero_le 1)

end Members

section Loaded
variable {F : Type} [PyFloat F] [LawfulPyFloat F] [Cryptography] {spec : Spec}
  {license obj : Members F} {key : Cryptography.PrivateKey}

omit [PyFloat F] [LawfulPyFloat F] [Cryptography] in
/-- No field of a spec has an order of members to show. -/
theorem spec_orderFree {k : Str} {v : Json F} (h : (spec.toMembers : Members F).get k = some v) :
    (joined v).OrderFree := by
  have hnodup : (spec.toMembers : Members F).keys.Nodup :=
    List.Nodup.sublist (spec_keys (F := F) spec) (by decide)
  rcases spec_values spec ((Members.get_eq_some_iff hnodup k v).mp h) with ⟨s, hs⟩ | ⟨n, hn⟩ | hm
  · rw [show v = .str s from hs]
    trivial
  · rw [show v = .int n from hn]
    trivial
  · rw [show v = .arr (spec.entitledModules.map .str) from hm, joined, joinedElems_eq_map]
    apply orderFreeElems_iff.mpr
    intro x hx
    obtain ⟨y, hy, rfl⟩ := List.mem_map.mp hx
    obtain ⟨s, -, rfl⟩ := List.mem_map.mp hy
    trivial

omit [LawfulPyFloat F] in
/-- A field of the loader's object, from the field of the spec. -/
theorem loaded_get (hsign : signLicense spec.toMembers key = .ok license) (hwf : WF (.obj obj))
    (hsorted : (Json.obj obj).sorted = (joined (.obj license)).sorted) {k : Str}
    (hk : k ≠ signatureField) : obj.get k = (spec.toMembers.get k).map joined := by
  obtain ⟨bytes, -, rfl⟩ := signLicense_spec hsign
  rw [spec_without, joined] at hsorted
  have hmap : Members.get (joinedMembers (spec.toMembers ++
      [(signatureField, .str (b64encode (Cryptography.sign key bytes)))])) k =
      ((spec.toMembers : Members F).get k).map joined := by
    rw [get_joinedMembers, get_append_ne hk]
  rw [← hmap]
  apply Members.get_eq_of_orderFree
  · intro v hv
    rw [hmap, Option.map_eq_some_iff] at hv
    obtain ⟨v', hv', rfl⟩ := hv
    exact spec_orderFree hv'
  · exact get_of_sorted_eq hwf.1 hsorted k

omit [PyFloat F] [LawfulPyFloat F] [Cryptography] in
theorem get_optional (spec : Spec) :
    (spec.toMembers : Members F).get (lit "quota_tier") = spec.quotaTier.map .str ∧
      (spec.toMembers : Members F).get (lit "expires_at") = spec.expiresAt.map .str := by
  obtain ⟨_, _, _, _, _, _, _, quotaTier, _, expiresAt⟩ := spec
  cases quotaTier <;> cases expiresAt <;> exact ⟨rfl, rfl⟩

omit [PyFloat F] [LawfulPyFloat F] [Cryptography] in
theorem get_fixed (spec : Spec) :
    (spec.toMembers : Members F).get (lit "customer_id") = some (.str spec.customerId) ∧
      (spec.toMembers : Members F).get (lit "edition") = some (.str spec.edition) ∧
      (spec.toMembers : Members F).get (lit "not_before") = some (.str spec.notBefore) ∧
      (spec.toMembers : Members F).get (lit "grace_days") = some (.int spec.graceDays) ∧
      (spec.toMembers : Members F).get (lit "entitled_modules") =
        some (.arr (spec.entitledModules.map .str)) ∧
      (spec.toMembers : Members F).get (lit "seats") = some (.int spec.seats) := by
  obtain ⟨_, _, _, _, _, _, _, quotaTier, _, expiresAt⟩ := spec
  cases quotaTier <;> cases expiresAt <;> exact ⟨rfl, rfl, rfl, rfl, rfl, rfl⟩

/-- What the loader finds in an issued license. -/
def issuedFields (body : IssueBody) (spec : Spec) (row : IssuanceLedger) : Fields where
  customerId := body.customerId
  edition := body.edition
  expiresAt := body.expiry.map wholeSecond
  notBefore := some row.notBefore
  graceDays := spec.graceDays
  seats := spec.seats
  quotaTier := body.quotaTier
  entitledModules := body.entitledModules.toFinset

omit [PyFloat F] [LawfulPyFloat F] [Cryptography] in
theorem joined_isoText (t : Instant) : joined (.str (isoText t) : Json F) = .str (isoText t) := by
  rw [joined, joinPairs_of_splitFree (splitFree_of_ascii (isoText_ascii t))]

omit [LawfulPyFloat F] in
/-- The start of the license, in the loader and in the ledger. -/
theorem loaded_notBefore (hsign : signLicense spec.toMembers key = .ok license) (hwf : WF (.obj obj))
    (hsorted : (Json.obj obj).sorted = (joined (.obj license)).sorted) {nb x : Instant}
    (htext : spec.notBefore = isoText nb) (hlt : nb < maxInstant)
    (hread : specInstant spec.notBefore = .ok x) :
    x = wholeSecond nb ∧ License.parseTs (obj.get (lit "not_before")) = .ok (some x) := by
  obtain ⟨-, -, hnotBefore, -⟩ := get_fixed (F := F) spec
  rw [htext] at hread
  have hsecond := (specInstant_isoText hlt hread).1
  refine ⟨hsecond, ?_⟩
  rw [loaded_get hsign hwf hsorted (by decide), hnotBefore, htext, Option.map_some, joined_isoText, hsecond]
  exact loader_isoText hlt hread

omit [LawfulPyFloat F] in
/-- The expiry of the license, in the loader and in the ledger. -/
theorem loaded_expiresAt (hsign : signLicense spec.toMembers key = .ok license) (hwf : WF (.obj obj))
    (hsorted : (Json.obj obj).sorted = (joined (.obj license)).sorted) {expiry x : Option Instant}
    (htext : spec.expiresAt = expiry.map isoText) (hlt : ∀ e, expiry = some e → e < maxInstant)
    (hread : spec.expiresAt.mapM specInstant = .ok x) :
    x = expiry.map wholeSecond ∧ License.parseTs (obj.get (lit "expires_at")) = .ok x := by
  obtain ⟨-, hexpires⟩ := get_optional (F := F) spec
  rw [loaded_get hsign hwf hsorted (by decide), hexpires]
  rw [htext] at hread ⊢
  cases expiry with
  | none =>
    obtain rfl := Except.ok.inj hread
    exact ⟨rfl, rfl⟩
  | some e =>
    have hread : (specInstant (isoText e)).map some = .ok x := hread
    cases hx : specInstant (isoText e) with
    | error err =>
      rw [hx] at hread
      cases hread
    | ok t =>
      rw [hx] at hread
      obtain rfl := Except.ok.inj hread
      have hsecond := (specInstant_isoText (hlt e rfl) hx).1
      rw [Option.map_some, Option.map_some, Option.map_some, Option.map_some, joined_isoText, ← hsecond]
      exact ⟨rfl, hsecond ▸ loader_isoText (hlt e rfl) hx⟩

section Extraction
variable [Unicode]

omit [LawfulPyFloat F] in
theorem loaded_extracts {body : IssueBody} {nb : Instant} {row : IssuanceLedger}
    (hbuilt : Built body spec nb) (hsign : signLicense spec.toMembers key = .ok license)
    (hnb : specInstant spec.notBefore = .ok row.notBefore)
    (hexp : spec.expiresAt.mapM specInstant = .ok row.expiresAt) (hwf : WF (.obj obj))
    (hsorted : (Json.obj obj).sorted = (joined (.obj license)).sorted) :
    row.notBefore = wholeSecond nb ∧
      extractFields obj = .ok (issuedFields body spec row) := by
  have hget : ∀ k, k ≠ signatureField → obj.get k = (spec.toMembers.get k).map joined :=
    fun k hk => loaded_get hsign hwf hsorted hk
  have hplain : ∀ s ∈ body.customerId :: body.edition ::
      (body.entitledModules ++ body.quotaTier.toList), joinPairs s = s := fun s hs =>
    joinPairs_of_splitFree (splitFree_of_plain (body.plain s hs))
  obtain ⟨hcustomer, hedition, -, hgrace, hmodules, hseats⟩ := get_fixed (F := F) spec
  obtain ⟨htier, -⟩ := get_optional (F := F) spec
  obtain ⟨hsecond, hnotBefore⟩ := loaded_notBefore hsign hwf hsorted hbuilt.notBefore hbuilt.notBefore_lt hnb
  obtain ⟨hexpiry, hexpiresAt⟩ := loaded_expiresAt hsign hwf hsorted hbuilt.expiresAt hbuilt.expiresAt_lt hexp
  refine ⟨hsecond, extractFields_iff.mpr ?_⟩
  unfold issuedFields
  refine ⟨?_, ?_, ?_, hnotBefore, ?_, ?_, ?_, body.entitledModules, ?_, rfl⟩
  · rw [strField, hget _ (by decide), hcustomer, hbuilt.customerId, Option.map_some, joined,
      Option.getD_some, pyStr, hplain _ List.mem_cons_self]
  · rw [strField, hget _ (by decide), hedition, hbuilt.edition, Option.map_some, joined,
      Option.getD_some, pyStr, hplain _ (List.mem_cons_of_mem _ List.mem_cons_self)]
  · rw [← hexpiry]
    exact hexpiresAt
  · rw [intField, hget _ (by decide), hgrace]
    rfl
  · rw [intField, hget _ (by decide), hseats]
    rfl
  · rw [quotaTierField, hget _ (by decide), htier, hbuilt.quotaTier]
    cases hq : body.quotaTier with
    | none => rfl
    | some tier =>
      have hjoin : joinPairs tier = tier := by
        apply hplain
        rw [hq]
        simp
      have hstr : joined (.str tier : Json F) = .str tier := by rw [joined, hjoin]
      simp only [Option.map_some, hstr, pyStr]
  · have harr : joined (.arr (body.entitledModules.map .str) : Json F) =
        .arr (body.entitledModules.map .str) := by
      rw [joined, joinedElems_eq_map, List.map_map]
      congr 1
      apply List.map_congr_left
      intro s hs
      have hmem : s ∈ body.customerId :: body.edition ::
          (body.entitledModules ++ body.quotaTier.toList) := by simp [hs]
      rw [Function.comp, joined, hplain s hmem]
    rw [rawModules, hget _ (by decide), hmodules, hbuilt.entitledModules, Option.map_some, harr]
    have hitems : (Json.arr (body.entitledModules.map .str) : Json F).strItems =
        .ok body.entitledModules := by
      rw [strItems, List.map_map]
      congr 1
      conv_rhs => rw [← List.map_id body.entitledModules]
      rfl
    dsimp only
    split
    · exact hitems
    · rename_i hfalse
      cases hm : body.entitledModules with
      | nil => rfl
      | cons s rest =>
        rw [hm] at hfalse
        exact absurd rfl hfalse

end Extraction

/-- The object in a license file is the issued license up to order, and carries its signature. -/
theorem delivered (hkey : LawfulKey key) (hsign : signLicense spec.toMembers key = .ok license) {text : Str}
    {bs : Bytes} (htext : Reformats F (compact (.obj license)) text) (hbs : utf8Encode text = .ok bs)
    {env : Environment} (hpem : env.publicPem = some (Cryptography.publicPem (Cryptography.publicKey key))) :
    ∃ obj : Members F, WF (.obj obj) ∧ (Json.obj obj).sorted = (joined (.obj license)).sorted ∧
      readLicense F env.nesting (some bs) = .ok obj ∧ Signed env obj := by
  have hadm := license_admissible spec hsign
  obtain ⟨j, j', hj, hj', ht, ht', hsorted⟩ := htext
  have hcompact : Spelling (joined (Json.obj license)) (compact (.obj license)) := by
    rw [← compact_joined]
    exact spelling_of_spells (spells_compact _)
  obtain rfl := spelling_unique (wf_joined _ hadm.writable) hj hcompact ht
  obtain ⟨bytes, obj, -, rfl, hread, -, hsig, hverify⟩ :=
    readLicense_recovers hkey hsign hadm env.nesting_pos hj' hsorted ht' hbs
  exact ⟨obj, hj', hsorted, hread, _, _, hsig, hpem, truthy_signature hkey, hkey.pem_ne, hverify⟩

variable [Unicode]

/-- Written as JSON and loaded under the matching key for its own edition, at any
time from its start on, an issued license is valid for what was requested exactly
when the edition is spelled as one of the three names and the clock is not past
the expiry, whose fraction of a second the license leaves out. -/
theorem issued_license_valid_iff {body : IssueBody} {ambient : Ambient} (hkey : LawfulKey key)
    {db db' : Database F} {result : IssuanceResult F}
    (hissue : Session.exec (issue F ambient (some key) body.toRequest) db = (db', .ok result))
    {text : Str} {bs : Bytes} (htext : Reformats F (compact (.obj result.license)) text)
    (hbs : utf8Encode text = .ok bs) {env : Environment}
    (hfile : env.licenseFile = some (some bs))
    (hpem : env.publicPem = some (Cryptography.publicPem (Cryptography.publicKey key)))
    (hedition : env.getenv (lit "ISA_EDITION") = some body.edition)
    (hfresh : env.resolvedEdition = none) (hstart : result.ledgerRow.notBefore ≤ env.now) :
    (∃ cfg, fromEnv F env = .ok cfg ∧ cfg.status = .valid ∧ cfg.customerId = body.customerId ∧
        cfg.edition = body.edition ∧ cfg.entitledModules = body.entitledModules.toFinset ∧
        cfg.quotaTier = body.quotaTier) ↔
      (∃ t : EditionType, body.edition = t.value) ∧
        ∀ e, body.expiry = some e → env.now ≤ wholeSecond e := by
  obtain ⟨spec, key', hspec, hsome, hsign, hnb, hexp⟩ := issue_ok hissue
  cases hsome
  obtain ⟨nb, hbuilt⟩ := built_of_buildSpec hspec
  obtain ⟨obj, hj', hsorted, hread, hsigned⟩ := delivered hkey hsign htext hbs hpem
  obtain ⟨hsecond, hfields⟩ := loaded_extracts hbuilt hsign hnb hexp hj' hsorted
  rw [fromEnv_of_loaded ⟨some bs, hfile, hread, hfields⟩]
  constructor
  · rintro ⟨cfg, hcfg, hvalid, -⟩
    by_cases htrusted : Trusted env obj (issuedFields body spec result.ledgerRow)
    · rw [judge_of_trusted htrusted] at hcfg
      cases hstatus : deriveTimeStatus (issuedFields body spec result.ledgerRow).expiresAt
          (issuedFields body spec result.ledgerRow).graceDays env.now with
      | error e =>
        rw [hstatus] at hcfg
        cases hcfg
      | ok status =>
        rw [hstatus] at hcfg
        rw [← Except.ok.inj hcfg] at hvalid
        have hvalid : status = .valid := hvalid
        rw [hvalid] at hstatus
        refine ⟨⟨_, htrusted.edition⟩, fun e he => ?_⟩
        refine deriveTimeStatus_valid_iff.mp hstatus (wholeSecond e) ?_
        rw [issuedFields, he, Option.map_some]
    · rw [judge_of_not_trusted htrusted] at hcfg
      rw [← Except.ok.inj hcfg] at hvalid
      cases hvalid
  · rintro ⟨⟨t, ht⟩, hexpiry⟩
    have hselected : env.getEdition.edition = t := by
      rw [Environment.getEdition, hfresh]
      rw [ht] at hedition
      exact selected_of_value hedition
    have hstatus : deriveTimeStatus (issuedFields body spec result.ledgerRow).expiresAt
        (issuedFields body spec result.ledgerRow).graceDays env.now = .ok .valid := by
      apply deriveTimeStatus_valid_iff.mpr
      intro e' he'
      obtain ⟨e, he, rfl⟩ := Option.map_eq_some_iff.mp he'
      exact hexpiry e he
    have htrusted : Trusted env obj (issuedFields body spec result.ledgerRow) := by
      refine ⟨hsigned, ?_, fun x hx => ?_⟩
      · rw [issuedFields, hselected, ht]
      · rw [← Option.some.inj hx]
        exact hstart
    rw [judge_of_trusted htrusted, hstatus]
    exact ⟨_, rfl, rfl, rfl, rfl, rfl, rfl⟩

end Loaded

/-! ## Two spellings of one edition -/

section Acme
attribute [local instance] asciiUnicode mirrorCryptography

theorem plain_of_all {l : List Str} (h : l.all (fun s => s.all fun c => decide (c.val < 0x80)) = true) :
    ∀ s ∈ l, Plain s := by
  intro s hs c hc
  have hlt := of_decide_eq_true (List.all_eq_true.mp (List.all_eq_true.mp h s hs) c hc)
  exact ⟨decide_eq_false (by omega), decide_eq_false (by omega)⟩

theorem acme_nonempty : lit "acme" ≠ [] := by decide

theorem saas_nonempty : lit "saas" ≠ [] := by decide

def saasBody : IssueBody where
  customerId := lit "acme"
  edition := lit "saas"
  entitledModules := [lit "erp"]
  customerId_ne := acme_nonempty
  edition_ne := saas_nonempty
  plain := plain_of_all (by decide)

def mixedCaseBody : IssueBody where
  customerId := lit "acme"
  edition := lit "SaaS"
  customerId_ne := acme_nonempty
  edition_ne := by decide
  plain := plain_of_all (by decide)

/-- Midnight of 2026-01-01, when both are issued and loaded. -/
def issueTime : Instant := 63902822400000000

def issuedFrom (body : IssueBody) : Database Unit × Except PyError (IssuanceResult Unit) :=
  Session.exec (issue Unit ⟨issueTime, ⟨lit "0a", lit "s"⟩⟩ (some ()) body.toRequest) .empty

/-- A deployment of the edition, with the license as issued. -/
def deployedAt (body : IssueBody) (content : Bytes) : Environment where
  getenv k :=
    if k = lit "ISA_LICENSE_FILE" then some (lit "license.json")
    else if k = lit "ISA_LICENSE_PUBKEY" then some (lit "PEM")
    else if k = lit "ISA_EDITION" then some body.edition
    else none
  file _ := some (some content)
  now := issueTime
  resolvedEdition := none
  nesting := 2
  nesting_pos := Environment.least_nesting

/-- The bytes of the issued license. -/
def issuedContent (body : IssueBody) : Bytes :=
  match (issuedFrom body).2 with
  | .ok result => writeJson (.obj result.license)
  | .error _ => []

theorem saas_license_valid : ∃ result db' text bs,
    LawfulPyFloat Unit ∧ LawfulKey () ∧ issuedFrom saasBody = (db', .ok result) ∧
    Reformats Unit (compact (.obj result.license)) text ∧ utf8Encode text = .ok bs ∧
    result.ledgerRow.notBefore ≤ (deployedAt saasBody bs).now ∧
    ∃ cfg, fromEnv Unit (deployedAt saasBody bs) = .ok cfg ∧ cfg.status = .valid ∧
      cfg.customerId = lit "acme" ∧ cfg.edition = lit "saas" ∧
      cfg.entitledModules = [lit "erp"].toFinset ∧ cfg.quotaTier = none := by
  have hok : (issuedFrom saasBody).2.map (fun result => result.ledgerRow.notBefore) =
      .ok issueTime := by decide
  obtain ⟨result, hresult, hnb⟩ : ∃ result, (issuedFrom saasBody).2 = .ok result ∧
      result.ledgerRow.notBefore = issueTime := by
    cases h : (issuedFrom saasBody).2 with
    | error e =>
      rw [h] at hok
      cases hok
    | ok result =>
      rw [h] at hok
      exact ⟨result, rfl, Except.ok.inj hok⟩
  have hissue : issuedFrom saasBody = ((issuedFrom saasBody).1, .ok result) := by
    rw [← hresult]
  obtain ⟨spec, key, -, -, hsign, -, -⟩ := issue_ok hissue
  have hself := reformats_compact (license_admissible spec hsign)
  have hbs := utf8Encode_printable (printable_compact (.obj result.license))
  have hlaw : LawfulKey () := mirror_lawful ()
  refine ⟨result, _, _, _, inferInstance, hlaw, hissue, hself, hbs, Nat.le_of_eq hnb, ?_⟩
  refine (issued_license_valid_iff hlaw hissue hself hbs rfl rfl rfl rfl (Nat.le_of_eq hnb)).mpr ?_
  refine ⟨⟨.saas, rfl⟩, fun e he => ?_⟩
  have hnone : saasBody.expiry = none := rfl
  rw [hnone] at he
  cases he

/-- The same edition in the spelling of its brand: issued, and refused by the loader. -/
theorem mixed_case_license_invalid :
    (issuedFrom mixedCaseBody).2.map (fun result => result.ledgerRow.notBefore) = .ok issueTime ∧
    mixedCaseBody.expiry = none ∧
    fromEnv Unit (deployedAt mixedCaseBody (issuedContent mixedCaseBody)) =
      .ok ⟨.invalid, lit "acme", lit "SaaS", none, 0, ∅, none, -1⟩ := by
  refine ⟨?_, rfl, ?_⟩
  · decide +kernel
  · decide +kernel

end Acme

end IsaCloud.Fleet
