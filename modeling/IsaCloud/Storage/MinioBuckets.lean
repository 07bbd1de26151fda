import IsaCloud.Storage.BucketNames
import IsaCloud.Storage.UserDirectories

/-!
# Buckets of the MinIO client

All users share the buckets of one server. `AsyncMinIOClient` tells them apart by
the name: it puts the rewritten user id before the rewritten bucket name, and
lists what starts with the user id as it was given. The server keeps any name; who
may create which is not modelled.
-/

namespace IsaCloud.Storage

set_option autoImplicit false

open Support Support.Text

/-- `s.replace(old, new, 1)` for an `old` that is not empty. -/
def replaceOnce (old new : Str) : Str → Str
  | [] => []
  | c :: s => if old <+: c :: s then new ++ (c :: s).drop old.length else c :: replaceOnce old new s

theorem replaceOnce_of_isPrefix {old new s : Str} (hne : old ≠ []) (h : old <+: s) :
    replaceOnce old new s = new ++ s.drop old.length := by
  cases s with
  | nil => exact absurd (List.prefix_nil.mp h) hne
  | cons c s => exact if_pos h

/-- A client of the server; an empty user id is none. -/
structure MinioClient where
  userId : Str
  deriving DecidableEq

namespace MinioClient
variable [Host]

def getPrefixedBucketName (c : MinioClient) (bucketName : Str) : Str :=
  if c.userId ≠ [] then lit "user-" ++ safeUserId c.userId ++ lit "-" ++ safeBucket bucketName
  else safeBucket bucketName

/-- The buckets after `create_bucket`; one that is there already is a success too. -/
def createBucket (c : MinioClient) (bucketName : Str) (buckets : List Str) : List Str :=
  if c.getPrefixedBucketName bucketName ∈ buckets then buckets else buckets ++ [c.getPrefixedBucketName bucketName]

/-- `f"user-{self.user_id}-"`. -/
def listMarker (c : MinioClient) : Str := lit "user-" ++ c.userId ++ lit "-"

def listBuckets (c : MinioClient) (buckets : List Str) : List Str :=
  if c.userId ≠ [] then
    (buckets.filter fun name => decide (c.listMarker <+: name)).map fun name => replaceOnce c.listMarker [] name
  else buckets

def bucketExists (c : MinioClient) (bucketName : Str) (buckets : List Str) : Bool :=
  decide (c.getPrefixedBucketName bucketName ∈ buckets)

end MinioClient

/-- A client that acts for a user. -/
abbrev Tenant := {c : MinioClient // c.userId ≠ []}

section Isolation
variable [Host]

/-- The buckets of the server once all of these were created. -/
def bucketsOf (created : List (Tenant × Str)) : List Str :=
  created.foldl (fun buckets x => x.1.1.createBucket x.2 buckets) []

/-- The listing names the user's own buckets, each once, in a form that `bucket_exists` accepts. -/
structure Listed (c : Tenant) (created : List (Tenant × Str)) : Prop where
  exist : ∀ n ∈ c.1.listBuckets (bucketsOf created), c.1.bucketExists n (bucketsOf created) = true
  own : ∀ n ∈ c.1.listBuckets (bucketsOf created),
    ∃ b, (c, b) ∈ created ∧ c.1.getPrefixedBucketName n = c.1.getPrefixedBucketName b
  complete : ∀ b, (c, b) ∈ created →
    ∃ n ∈ c.1.listBuckets (bucketsOf created), c.1.getPrefixedBucketName n = c.1.getPrefixedBucketName b
  foreign : ∀ n ∈ c.1.listBuckets (bucketsOf created), ∀ x ∈ created, x.1 ≠ c →
    c.1.getPrefixedBucketName n ≠ x.1.1.getPrefixedBucketName x.2
  once : (c.1.listBuckets (bucketsOf created)).Nodup

/-- No two of the users share a bucket name, and every listing is that user's. -/
structure BucketsIsolated (users : Set Tenant) : Prop where
  names : ∀ c ∈ users, ∀ c' ∈ users, c ≠ c' → ∀ a b, c.1.getPrefixedBucketName a ≠ c'.1.getPrefixedBucketName b
  listings : ∀ created : List (Tenant × Str), (∀ x ∈ created, x.1 ∈ users) → ∀ c ∈ users, Listed c created

/-- Every user id is in the rewritten form, and none continues another after a hyphen. -/
structure IdsSeparated (users : Set Tenant) : Prop where
  rewritten : ∀ c ∈ users, safeUserId c.1.userId = c.1.userId
  apart : ∀ c ∈ users, ∀ c' ∈ users, c ≠ c' → ¬ c.1.userId ++ [hyphen] <+: c'.1.userId

/-! ## Names -/

variable {c c' : Tenant} {users : Set Tenant} {created : List (Tenant × Str)}

omit [Host] in
theorem lit_hyphen : lit "-" = [hyphen] := rfl

theorem prefixedName_eq (c : Tenant) (b : Str) :
    c.1.getPrefixedBucketName b = lit "user-" ++ (safeUserId c.1.userId ++ hyphen :: safeBucket b) := by
  rw [MinioClient.getPrefixedBucketName, if_pos c.2, lit_hyphen, List.append_assoc, List.append_assoc,
    List.singleton_append]

theorem mem_bucketsOf {n : Str} :
    n ∈ bucketsOf created ↔ ∃ x ∈ created, n = x.1.1.getPrefixedBucketName x.2 := by
  have hgeneral : ∀ (created : List (Tenant × Str)) (buckets : List Str),
      n ∈ created.foldl (fun buckets x => x.1.1.createBucket x.2 buckets) buckets ↔
        n ∈ buckets ∨ ∃ x ∈ created, n = x.1.1.getPrefixedBucketName x.2 := by
    intro created
    induction created with
    | nil => simp
    | cons x created ih =>
      intro buckets
      have hstep : n ∈ x.1.1.createBucket x.2 buckets ↔ n ∈ buckets ∨ n = x.1.1.getPrefixedBucketName x.2 := by
        unfold MinioClient.createBucket
        split
        · rename_i hmem
          exact ⟨.inl, fun h => h.elim id fun he => he ▸ hmem⟩
        · rw [List.mem_append, List.mem_singleton]
      rw [List.foldl_cons, ih, hstep]
      simp only [List.mem_cons, exists_eq_or_imp, or_assoc]
  have h := hgeneral created []
  rwa [or_iff_right (List.not_mem_nil)] at h

theorem nodup_bucketsOf : (bucketsOf created).Nodup := by
  have hgeneral : ∀ (created : List (Tenant × Str)) (buckets : List Str), buckets.Nodup →
      (created.foldl (fun buckets x => x.1.1.createBucket x.2 buckets) buckets).Nodup := by
    intro created
    induction created with
    | nil => exact fun _ h => h
    | cons x created ih =>
      intro buckets h
      apply ih
      change (x.1.1.createBucket x.2 buckets).Nodup
      unfold MinioClient.createBucket
      split
      · exact h
      · rename_i hno
        exact List.nodup_append.mpr ⟨h, List.nodup_singleton _, fun y hy z hz hyz =>
          hno ((List.mem_singleton.mp hz) ▸ hyz ▸ hy)⟩
  exact hgeneral created [] List.nodup_nil

/-- A listed name is the rest of a bucket name behind the marker. -/
theorem mem_listBuckets {n : Str} :
    n ∈ c.1.listBuckets (bucketsOf created) ↔ c.1.listMarker ++ n ∈ bucketsOf created := by
  have hne : c.1.listMarker ≠ [] := fun h => nomatch h
  rw [MinioClient.listBuckets, if_pos c.2, List.mem_map]
  constructor
  · rintro ⟨name, hname, rfl⟩
    obtain ⟨hmem, hp⟩ := List.mem_filter.mp hname
    have hp := of_decide_eq_true hp
    rw [replaceOnce_of_isPrefix hne hp, List.nil_append]
    obtain ⟨r, rfl⟩ := hp
    rwa [List.drop_left]
  · intro h
    have hp : c.1.listMarker <+: c.1.listMarker ++ n := List.prefix_append _ _
    refine ⟨_, List.mem_filter.mpr ⟨h, decide_eq_true hp⟩, ?_⟩
    rw [replaceOnce_of_isPrefix hne hp, List.nil_append, List.drop_left]

omit [Host] in
theorem listMarker_append (c : Tenant) (n : Str) :
    c.1.listMarker ++ n = lit "user-" ++ (c.1.userId ++ hyphen :: n) := by
  rw [MinioClient.listMarker, lit_hyphen, List.append_assoc, List.append_assoc, List.singleton_append]

/-- With separated ids, a name tells whose it is. -/
theorem IdsSeparated.owner (h : IdsSeparated users) (hc : c ∈ users) (hc' : c' ∈ users) {a b : Str}
    (heq : c.1.userId ++ hyphen :: a = c'.1.userId ++ hyphen :: b) : c = c' ∧ a = b := by
  have hcmp : ∀ {x y : Tenant} {s t : Str}, x ∈ users → y ∈ users →
      x.1.userId ++ hyphen :: s = y.1.userId ++ hyphen :: t →
      x.1.userId ++ [hyphen] <+: y.1.userId ++ [hyphen] → x = y := by
    intro x y s t hx hy heq hp
    rcases List.prefix_concat_iff.mp hp with hsame | hp
    · exact Subtype.ext (by
        have hid : x.1.userId = y.1.userId := (List.append_left_inj [hyphen]).mp hsame
        cases hx' : x.1
        cases hy' : y.1
        rw [hx', hy'] at hid
        exact congrArg MinioClient.mk hid)
    · by_contra hne
      exact h.apart x hx y hy hne hp
  have hp : c.1.userId ++ [hyphen] <+: c.1.userId ++ hyphen :: a := ⟨a, by simp⟩
  have hp' : c'.1.userId ++ [hyphen] <+: c.1.userId ++ hyphen :: a := ⟨b, by simp [heq]⟩
  have hcc : c = c' := by
    rcases List.prefix_or_prefix_of_prefix hp hp' with h1 | h1
    · exact hcmp hc hc' heq h1
    · exact (hcmp hc' hc heq.symm h1).symm
  subst hcc
  exact ⟨rfl, (List.cons.inj (List.append_cancel_left heq)).2⟩

variable [LawfulLower]

theorem IdsSeparated.isolated (h : IdsSeparated users) : BucketsIsolated users := by
  have hname : ∀ c ∈ users, ∀ b, c.1.getPrefixedBucketName b = lit "user-" ++ (c.1.userId ++ hyphen :: safeBucket b) := by
    intro c hc b
    rw [prefixedName_eq, h.rewritten c hc]
  have hapart : ∀ c ∈ users, ∀ c' ∈ users, c ≠ c' →
      ∀ a b, c.1.getPrefixedBucketName a ≠ c'.1.getPrefixedBucketName b := by
    intro c hc c' hc' hne a b heq
    rw [hname c hc, hname c' hc'] at heq
    exact hne (h.owner hc hc' (List.append_cancel_left heq)).1
  refine ⟨hapart, ?_⟩
  intro created hcreated c hc
  have hlisted : ∀ n, n ∈ c.1.listBuckets (bucketsOf created) → ∃ b, (c, b) ∈ created ∧ n = safeBucket b := by
    intro n hn
    obtain ⟨x, hx, heq⟩ := mem_bucketsOf.mp (mem_listBuckets.mp hn)
    rw [listMarker_append, hname x.1 (hcreated x hx)] at heq
    obtain ⟨rfl, rfl⟩ := h.owner hc (hcreated x hx) (List.append_cancel_left heq)
    exact ⟨x.2, hx, rfl⟩
  have hsame : ∀ b, c.1.getPrefixedBucketName (safeBucket b) = c.1.getPrefixedBucketName b := by
    intro b
    rw [prefixedName_eq, prefixedName_eq, safeBucket_of_cleanName (cleanName_safeBucket b)]
  constructor
  · intro n hn
    obtain ⟨b, hb, rfl⟩ := hlisted n hn
    exact decide_eq_true (mem_bucketsOf.mpr ⟨(c, b), hb, hsame b⟩)
  · intro n hn
    obtain ⟨b, hb, rfl⟩ := hlisted n hn
    exact ⟨b, hb, hsame b⟩
  · intro b hb
    refine ⟨safeBucket b, mem_listBuckets.mpr (mem_bucketsOf.mpr ⟨(c, b), hb, ?_⟩), hsame b⟩
    rw [listMarker_append, hname c hc]
  · intro n hn x hx hne
    exact hapart c hc x.1 (hcreated x hx) (Ne.symm hne) n x.2
  · have hne : c.1.listMarker ≠ [] := fun h => nomatch h
    rw [MinioClient.listBuckets, if_pos c.2]
    apply List.Nodup.map_on _ (nodup_bucketsOf.filter _)
    intro n hn m hm heq
    obtain ⟨r, rfl⟩ := of_decide_eq_true (List.mem_filter.mp hn).2
    obtain ⟨t, rfl⟩ := of_decide_eq_true (List.mem_filter.mp hm).2
    rw [replaceOnce_of_isPrefix hne (List.prefix_append _ _), replaceOnce_of_isPrefix hne (List.prefix_append _ _),
      List.drop_left, List.drop_left] at heq
    rw [List.append_cancel_left heq]

/-! ## What isolation needs -/

theorem stable_x : Stable (cp 'x') := LawfulLower.stable_ascii _ (by decide) (by decide)

theorem cleanName_x : CleanName (lit "x") where
  stable c hc := (List.mem_singleton.mp hc) ▸ stable_x
  underscore := by decide
  single := by decide
  first t h := by
    have := (List.cons.inj h).1
    exact absurd this (by decide)
  last t h := by
    have hlast : some (cp 'x') = some hyphen := by simpa [lit] using congrArg List.getLast? h
    exact absurd hlast (by decide)

/-- The text after a clean id and a hyphen, made a bucket name. -/
theorem cleanName_continued {u w : Str} (h : CleanName (u ++ hyphen :: w)) : CleanName (w ++ [hyphen, cp 'x']) := by
  have hw : ∀ c ∈ w, c ∈ u ++ hyphen :: w := fun c hc =>
    List.mem_append.mpr (.inr (List.mem_cons_of_mem _ hc))
  have hne : w ≠ [] := by
    rintro rfl
    exact h.last u rfl
  refine ⟨?_, ?_, ?_, ?_, ?_⟩
  · intro c hc
    rcases List.mem_append.mp hc with hc | hc
    · exact h.stable c (hw c hc)
    · rcases List.mem_cons.mp hc with rfl | hc
      · exact stable_hyphen
      · exact (List.mem_singleton.mp hc) ▸ stable_x
  · intro hc
    rcases List.mem_append.mp hc with hc | hc
    · exact h.underscore (hw _ hc)
    · exact absurd hc (by decide)
  · intro hd
    have hcut : w ++ [hyphen, cp 'x'] = (w ++ [hyphen]) ++ [cp 'x'] := by simp
    rw [hcut] at hd
    rcases List.infix_concat_iff.mp hd with hd | hd
    · obtain ⟨t, ht⟩ := hd
      have hlast : some hyphen = some (cp 'x') := by simpa using congrArg List.getLast? ht
      exact absurd hlast (by decide)
    · rcases List.infix_concat_iff.mp hd with hd | hd
      · obtain ⟨t, ht⟩ := hd
        have hlast : t ++ [hyphen] = w := (List.append_left_inj [hyphen]).mp (by simpa using ht)
        exact h.last (u ++ hyphen :: t) (by rw [← hlast]; simp)
      · exact h.single (hd.trans ⟨u ++ [hyphen], [], by simp⟩)
  · intro t ht
    obtain ⟨a, w, rfl⟩ := List.exists_cons_of_ne_nil hne
    have hah : a = hyphen := (List.cons.inj ht).1
    exact h.single ⟨u, w, by rw [hah]; simp⟩
  · intro t ht
    have hlast : some (cp 'x') = some hyphen := by simpa using congrArg List.getLast? ht
    exact absurd hlast (by decide)

theorem BucketsIsolated.separated (h : BucketsIsolated users) : IdsSeparated users := by
  have hx : safeBucket (lit "x") = lit "x" := safeBucket_of_cleanName cleanName_x
  have hrewritten : ∀ c ∈ users, safeUserId c.1.userId = c.1.userId := by
    intro c hc
    have hlisted := h.listings [(c, lit "x")] (fun y hy => (List.mem_singleton.mp hy) ▸ hc) c hc
    obtain ⟨n, hn, -⟩ := hlisted.complete (lit "x") (List.mem_singleton.mpr rfl)
    obtain ⟨y, hy, heq⟩ := mem_bucketsOf.mp (mem_listBuckets.mp hn)
    obtain rfl := List.mem_singleton.mp hy
    rw [listMarker_append, prefixedName_eq, hx] at heq
    have heq := List.append_cancel_left heq
    -- the marker ends in a hyphen, the bucket's name in an x
    have hp : c.1.userId ++ [hyphen] <+: (safeUserId c.1.userId ++ [hyphen]) ++ [cp 'x'] :=
      ⟨n, by rw [List.append_assoc, List.singleton_append, heq, List.append_assoc]; rfl⟩
    rcases List.prefix_concat_iff.mp hp with hsame | hp
    · have := List.append_inj_right' hsame rfl
      exact absurd this (by decide)
    · rcases List.prefix_concat_iff.mp hp with hsame | hp
      · exact ((List.append_left_inj [hyphen]).mp hsame).symm
      · -- a clean text that starts with the id shows that the id only got shorter
        have hstable : ∀ a ∈ c.1.userId, Stable a := fun a ha =>
          (cleanName_safeUserId c.1.userId).stable a (hp.mem (List.mem_append.mpr (.inl ha)))
        have hlong := hp.length_le
        have hshort := length_safeUserId_le hstable
        rw [List.length_append, List.length_singleton] at hlong
        omega
  refine ⟨hrewritten, ?_⟩
  intro c hc c' hc' hne hp
  obtain ⟨w, hw⟩ := hp
  rw [List.append_assoc, List.singleton_append] at hw
  have hclean : CleanName (c.1.userId ++ hyphen :: w) := by
    rw [hw, ← hrewritten c' hc']
    exact cleanName_safeUserId _
  refine h.names c hc c' hc' hne (w ++ [hyphen, cp 'x']) (lit "x") ?_
  rw [prefixedName_eq, prefixedName_eq, safeBucket_of_cleanName (cleanName_continued hclean), hx, hrewritten c hc,
    hrewritten c' hc', ← hw, List.append_assoc]
  rfl

/-- Exactly when the buckets of these users are isolated. -/
theorem bucketsIsolated_iff (users : Set Tenant) : BucketsIsolated users ↔ IdsSeparated users :=
  ⟨BucketsIsolated.separated, IdsSeparated.isolated⟩

end Isolation

/-! ## Tenants of one server -/

section Example

attribute [local instance] plainHost

theorem lowerPoint_idem (c : CodePoint) : Python.lowerPoint (Python.lowerPoint c) = Python.lowerPoint c := by
  unfold Python.lowerPoint
  by_cases h : 65 ≤ c.val ∧ c.val ≤ 90
  · have hval : (Fin.ofNat 0x110000 (c.val + 32)).val = c.val + 32 := Nat.mod_eq_of_lt (by omega)
    rw [if_pos h, if_neg (by rw [hval]; omega)]
  · rw [if_neg h, if_neg h]

theorem stable_plain {c : CodePoint} (h : Python.lowerPoint c = c) : Stable c :=
  show [Python.lowerPoint c] = [c] by rw [h]

theorem lawfulLower_plain : LawfulLower where
  stable_lower s c hc := by
    obtain ⟨a, -, rfl⟩ := List.mem_map.mp hc
    exact stable_plain (lowerPoint_idem a)
  lower_of_stable s h := by
    calc s.map Python.lowerPoint = s.map id := List.map_congr_left fun c hc => (List.cons.inj (h c hc)).1
      _ = s := List.map_id s
  stable_ascii c _ h := stable_plain (if_neg h)

attribute [local instance] lawfulLower_plain

def tenantOf (userId : Str) (h : userId ≠ []) : Tenant := ⟨⟨userId⟩, h⟩

theorem alice_and_bob_buckets_isolated :
    BucketsIsolated {c | c = tenantOf (lit "alice") (by decide) ∨ c = tenantOf (lit "bob") (by decide)} := by
  refine (bucketsIsolated_iff _).mpr ⟨?_, ?_⟩
  · rintro c (rfl | rfl)
    · decide
    · decide
  · rintro c (rfl | rfl) c' (rfl | rfl) hne
    · exact absurd rfl hne
    · decide
    · decide
    · exact absurd rfl hne

/-- `a_b` and `a-b` store their documents in one bucket. -/
theorem bucket_shared_by_two_users : ¬ ∀ users : Set Tenant, BucketsIsolated users := by
  intro h
  have hnames := (h Set.univ).names (tenantOf (lit "a_b") (by decide)) trivial (tenantOf (lit "a-b") (by decide)) trivial
    (by decide) (lit "docs") (lit "docs")
  exact absurd hnames (by decide)

end Example

end IsaCloud.Storage
