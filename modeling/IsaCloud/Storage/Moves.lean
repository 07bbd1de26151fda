import IsaCloud.Storage.ObjectFiles

/-!
# Moving an object

A move is a copy and then a deletion of the source. Many names lead to one file,
so the deletion may take away what the copy has just written: the object itself,
when both names lead to it, or the object where it was stored as the metadata
file of the source.
-/

namespace IsaCloud.Storage

set_option autoImplicit false

open Support Support.Text Support.Python Support.Encoding Support.FileTree Support.PosixPath

section Move
variable [Host] {F : Type} [PyFloat F]

/-- What `move_object` should keep: the bytes read from the source before are read from the destination
if there is an etag, and from the source still if there is none. -/
def MoveKeeps (F : Type) [PyFloat F] (c : Client) (sourceBucket sourceKey destBucket destKey : Str)
    (now : DateTime.Instant) (t : Files) : Prop :=
  let moved := moveObject (F := F) c sourceBucket sourceKey destBucket destKey now t
  (∀ etag, moved.value = .ok (some etag) →
    (getObject c destBucket destKey moved.tree).value = (getObject c sourceBucket sourceKey t).value) ∧
  (moved.value = .ok none →
    (getObject c sourceBucket sourceKey moved.tree).value = (getObject c sourceBucket sourceKey t).value)

section Runs
variable {c : Client} {sb sk db dk : Str} {now : DateTime.Instant} {t t' : Files} {data : Bytes}

/-! ## The source after a failed copy -/

omit [PyFloat F] in
theorem HalfStored.keepsDirs (h : HalfStored c db dk data t t') : KeepsDirs t t' := by
  obtain ⟨t₁, hg, rfl | hf⟩ := h
  · exact hg.keepsDirs
  · exact hg.keepsDirs.trans hf.keepsDirs

theorem HalfStored.source_kept (h : HalfStored c db dk data t t')
    (hs : (getObject c sb sk t).value = .ok (some data)) : (getObject c sb sk t').value = .ok (some data) := by
  obtain ⟨p, cs, ms, hfiles, hl, hfile⟩ := getObject_some_iff.mp hs
  refine getObject_some_iff.mpr ⟨p, cs, ms, hfiles, h.keepsDirs.locate hl, ?_⟩
  obtain ⟨t₁, hg, rfl | hf⟩ := h
  · exact hg.keeps hfile
  · by_cases hsame : norm cs = objectPlace c db dk
    · rw [hsame]
      exact hf.same
    · rw [hf.other hsame]
      exact hg.keeps hfile

/-! ## The destination after the deletion -/

/-- The deletion spares the copy exactly if it is neither file of the source. -/
theorem stored_kept_iff {t₁ t₂ : Files} {a : Option Bool} (hs : (getObject c sb sk t).value = .ok (some data))
    (hst : Stored c db dk data t t₁) (hdel : Runs (deleteObject c sb sk) t₁ (.ok a) t₂) :
    (getObject c db dk t₂).value = .ok (some data) ↔
      ¬ (objectPlace c db dk = objectPlace c sb sk ∨ objectPlace c db dk = metadataPlace c sb sk) := by
  obtain ⟨p, cs, ms, hsource, hl, hfile⟩ := getObject_some_iff.mp hs
  obtain ⟨p', cs', ms', u₁, u₂, bytes, hdest, hg, hl', hobject, hmeta⟩ := hst
  have hkept : KeepsDirs u₁ t₁ := hobject.keepsDirs.trans hmeta.keepsDirs
  have hcopy : t₁.lookup (norm cs') = some (.file data) := (hmeta.other hdest.ne.symm).trans hobject.same
  have hstill : ∃ d, t₁.lookup (norm cs) = some (.file d) := by
    by_cases hm : norm cs = norm ms'
    · exact ⟨bytes, hm ▸ hmeta.same⟩
    · by_cases ho : norm cs = norm cs'
      · exact ⟨data, ho ▸ hcopy⟩
      · exact ⟨data, (hmeta.other hm).trans ((hobject.other ho).trans (hg.keeps hfile))⟩
  obtain ⟨d, hd⟩ := hstill
  obtain ⟨u₃, u₄, a', hrun, herased, hside⟩ :=
    deleteObject_file hsource ((hg.keepsDirs.trans hkept).locate hl) hd
  obtain rfl : u₄ = t₂ := hrun.2.symm.trans hdel.2
  have hkept' : KeepsDirs t₁ u₄ := by
    rcases hside with hgone | ⟨-, rfl⟩
    · exact herased.keepsDirs.trans hgone.keepsDirs
    · exact herased.keepsDirs
  have hread : (getObject c db dk u₄).value = .ok (some data) ↔ u₄.lookup (norm cs') = some (.file data) := by
    constructor
    · intro hv
      obtain ⟨q, es, ns, hfiles, -, hf⟩ := getObject_some_iff.mp hv
      rwa [← hfiles.objectPlace_eq, hdest.objectPlace_eq] at hf
    · intro hf
      exact (getObject_file hdest ((hkept.trans hkept').locate hl') hf).1
  rw [hread, hdest.objectPlace_eq, hsource.objectPlace_eq, hsource.metadataPlace_eq, not_or]
  constructor
  · intro hthere
    constructor
    · intro hsame
      rw [hsame] at hthere
      rcases hside with hgone | ⟨-, rfl⟩
      · rw [hgone.other hsource.ne.symm, herased.same] at hthere
        cases hthere
      · rw [herased.same] at hthere
        cases hthere
    · intro hsame
      -- the copy stands where the metadata of the source is looked for
      have hthird : u₃.lookup (norm ms) = some (.file data) := by
        rw [herased.other hsource.ne, ← hsame]
        exact hcopy
      rw [hsame] at hthere
      rcases hside with hgone | ⟨hno, -⟩
      · rw [hgone.same] at hthere
        cases hthere
      · exact hno data hthird
  · rintro ⟨hobj, hside'⟩
    have hthird : u₃.lookup (norm cs') = some (.file data) := (herased.other hobj).trans hcopy
    rcases hside with hgone | ⟨-, rfl⟩
    · exact (hgone.other hside').trans hthird
    · exact hthird

/-! ## The copy -/

section Copy
variable [Json.LawfulPyFloat F]

/-- A copy puts what it read, and does nothing if it read nothing. -/
theorem copyObject_outcome (hsize : ∀ l d, t.lookup l = some (.file d) → d.length < 2 ^ 63) {v : Option Str}
    (h : Runs (copyObject (F := F) c sb sk db dk now) t (.ok v) t') :
    (v = none ∧ t' = t ∧ ∀ data, (getObject c sb sk t).value ≠ .ok (some data)) ∨
      ∃ data, (getObject c sb sk t).value = .ok (some data) ∧
        ((v = some (Host.md5 data) ∧ Stored c db dk data t t' ∧ Accepts c t db dk) ∨
          v = none ∧ HalfStored c db dk data t t' ∧ ¬ Accepts c t db dk) := by
  obtain ⟨got, hget⟩ : ∃ a, Runs (getObject c sb sk) t (.ok a) t := reads_answers (reads_getObject c sb sk) t
  cases got with
  | none =>
    have hcopy : Runs (copyObject (F := F) c sb sk db dk now) t (.ok none) t := runs_handleError (hget.bind (runs_pure none t))
    obtain ⟨hv, rfl⟩ := h.unique hcopy
    cases hv
    refine Or.inl ⟨rfl, rfl, ?_⟩
    intro data hdata
    exact nomatch hget.1.symm.trans hdata
  | some data =>
    refine Or.inr ⟨data, hget.1, ?_⟩
    have hlen : data.length < 2 ^ 63 := by
      obtain ⟨_, cs, _, _, _, hfile⟩ := getObject_some_iff.mp hget.1
      exact hsize (norm cs) data hfile
    -- whatever metadata was read, it can be written again
    have hanswer : ∀ (contentType metadata : Json F), Json.intsFit contentType = true → Json.intsFit metadata = true →
        Runs (putObject c db dk data contentType metadata now) t (.ok v) t' →
        (v = some (Host.md5 data) ∧ Stored c db dk data t t' ∧ Accepts c t db dk) ∨
          v = none ∧ HalfStored c db dk data t t' ∧ ¬ Accepts c t db dk := by
      intro contentType metadata hct hmd hput
      have hfit : Json.intsFit (metaRecord dk data contentType metadata now) = true := intsFit_metaRecord hlen hct hmd
      rcases putObject_outcome hfit hput with hstored | ⟨rfl, hhalf⟩
      · exact Or.inl hstored
      · refine Or.inr ⟨rfl, hhalf, ?_⟩
        intro hacc
        exact nomatch hput.1.symm.trans (putObject_of_accepts hfit hacc)
    obtain ⟨info, hinfo⟩ : ∃ a, Runs (getObjectInfo (F := F) c sb sk) t (.ok a) t :=
      reads_answers (reads_getObjectInfo c sb sk) t
    cases info with
    | none =>
      obtain ⟨a, hput⟩ : ∃ a, Runs (putObject c db dk data (.null : Json F) (.obj []) now) t (.ok a) _ := runs_answers _ t
      obtain ⟨hv, rfl⟩ := h.unique (runs_handleError (hget.bind (hinfo.bind hput)))
      cases hv
      exact hanswer .null (.obj []) rfl rfl hput
    | some info =>
      obtain ⟨hct, hmd⟩ := intsFit_info hinfo
      obtain ⟨a, hput⟩ : ∃ a, Runs (putObject c db dk data info.contentType info.metadata now) t (.ok a) _ := runs_answers _ t
      obtain ⟨hv, rfl⟩ := h.unique (runs_handleError (hget.bind (hinfo.bind hput)))
      cases hv
      exact hanswer info.contentType info.metadata hct hmd hput

theorem moveObject_outcome (hmd5 : ∀ data, Host.md5 data ≠ [])
    (hsize : ∀ l d, t.lookup l = some (.file d) → d.length < 2 ^ 63) {v : Option Str}
    (h : Runs (moveObject (F := F) c sb sk db dk now) t (.ok v) t') :
    (v = none ∧ t' = t ∧ ∀ data, (getObject c sb sk t).value ≠ .ok (some data)) ∨
      ∃ data, (getObject c sb sk t).value = .ok (some data) ∧
        ((∃ t₁ a, v = some (Host.md5 data) ∧ Stored c db dk data t t₁ ∧ Accepts c t db dk ∧
            Runs (deleteObject c sb sk) t₁ (.ok a) t') ∨
          v = none ∧ HalfStored c db dk data t t' ∧ ¬ Accepts c t db dk) := by
  obtain ⟨etag, hcopy⟩ : ∃ a, Runs (copyObject (F := F) c sb sk db dk now) t (.ok a) _ := runs_answers _ t
  obtain ⟨delete, hmove, hnone, hsome⟩ : ∃ delete : Option Str → Io (Option Str),
      moveObject (F := F) c sb sk db dk now = handleError (copyObject (F := F) c sb sk db dk now >>= delete) ∧
        delete none = pure none ∧
        ∀ x xs, delete (some (x :: xs)) = (deleteObject c sb sk >>= fun _ => pure (some (x :: xs))) :=
    ⟨_, rfl, rfl, fun _ _ => rfl⟩
  rw [hmove] at h
  have hrest : ∀ {t₁ : Files}, Runs (delete etag) (copyObject (F := F) c sb sk db dk now t).tree (.ok etag) t₁ →
      v = etag ∧ t' = t₁ := by
    intro t₁ hrun
    obtain ⟨hv, ht⟩ := h.unique (runs_handleError (hcopy.bind hrun))
    exact ⟨Except.ok.inj hv, ht⟩
  rcases copyObject_outcome hsize hcopy with ⟨rfl, htree, hno⟩ | ⟨data, hdata, ⟨rfl, hstored, hacc⟩ | ⟨rfl, hhalf, hacc⟩⟩
  · rw [hnone] at hrest
    obtain ⟨hv, ht⟩ := hrest (runs_pure none _)
    exact Or.inl ⟨hv, ht.trans htree, hno⟩
  · refine Or.inr ⟨data, hdata, Or.inl ?_⟩
    cases hmd : Host.md5 data with
    | nil => exact absurd hmd (hmd5 data)
    | cons x xs =>
      rw [hmd, hsome] at hrest
      obtain ⟨a, hdel⟩ : ∃ a, Runs (deleteObject c sb sk) (copyObject (F := F) c sb sk db dk now t).tree (.ok a) _ :=
        runs_answers _ _
      obtain ⟨rfl, rfl⟩ := hrest (hdel.bind (runs_pure _ _))
      exact ⟨_, a, rfl, hstored, hacc, hdel⟩
  · rw [hnone] at hrest
    obtain ⟨hv, rfl⟩ := hrest (runs_pure none _)
    exact Or.inr ⟨data, hdata, Or.inr ⟨hv, hhalf, hacc⟩⟩

/-- A move keeps the data unless the object can be read and the destination stored, and the destination
leads to one of the two files of the source. -/
theorem move_keeps_iff (hmd5 : ∀ data, Host.md5 data ≠ [])
    (hsize : ∀ l d, t.lookup l = some (.file d) → d.length < 2 ^ 63) :
    MoveKeeps F c sb sk db dk now t ↔
      ¬ ((∃ data, (getObject c sb sk t).value = .ok (some data)) ∧ Accepts c t db dk ∧
        (objectPlace c db dk = objectPlace c sb sk ∨ objectPlace c db dk = metadataPlace c sb sk)) := by
  obtain ⟨v, hrun⟩ : ∃ a, Runs (moveObject (F := F) c sb sk db dk now) t (.ok a)
      (moveObject (F := F) c sb sk db dk now t).tree := runs_answers _ t
  rw [MoveKeeps, hrun.1]
  rcases moveObject_outcome hmd5 hsize hrun with
    ⟨rfl, htree, hno⟩ | ⟨data, hdata, ⟨t₁, a, rfl, hstored, hacc, hdel⟩ | ⟨rfl, hhalf, hacc⟩⟩
  · constructor
    · rintro - ⟨⟨data, hdata⟩, -⟩
      exact hno data hdata
    · intro _
      refine ⟨fun etag he => (nomatch he), fun _ => ?_⟩
      rw [htree]
  · have hkept := stored_kept_iff hdata hstored hdel
    rw [← hdata] at hkept
    constructor
    · rintro ⟨hsome, -⟩ ⟨-, -, hplace⟩
      exact hkept.mp (hsome _ rfl) hplace
    · intro hnot
      refine ⟨fun etag _ => ?_, fun he => (nomatch he)⟩
      exact hkept.mpr fun hplace => hnot ⟨⟨data, hdata⟩, hacc, hplace⟩
  · constructor
    · rintro - ⟨-, hacc', -⟩
      exact hacc hacc'
    · intro _
      refine ⟨fun etag he => (nomatch he), fun _ => ?_⟩
      rw [hhalf.source_kept hdata, hdata]

end Copy

end Runs

end Move

/-! ## One file under two names -/

section Example

attribute [local instance] plainHost

/-- An empty object. -/
def aliceFile (bucketName key : String) : Files :=
  (putObject alice (lit bucketName) (lit key) [] (.null : Json Unit) .null 0 (bare alice)).tree

def shortNode : Node Bytes → Bool
  | .dir => true
  | .file d => decide (d.length < 1000)

theorem aliceFile_small {l : Loc Name} {d : Bytes} (h : (aliceFile "docs" "a").lookup l = some (.file d)) :
    d.length < 2 ^ 63 := by
  have hall : ∀ e ∈ (aliceFile "docs" "a").nodes.entries, ∀ d, e.2 = .file d → d.length < 1000 := by
    have hcheck : (aliceFile "docs" "a").nodes.entries.all (fun e => shortNode e.2) = true := by decide +kernel
    intro e he d hd
    have hok := List.all_eq_true.mp hcheck e he
    rw [hd] at hok
    exact of_decide_eq_true hok
  rw [Tree.lookup] at h
  split at h
  · cases h
  · have hlen := hall _ (Dict.mem_of_find h) d rfl
    omega

theorem move_to_other_key : MoveKeeps Unit alice (lit "docs") (lit "a") (lit "docs") (lit "b") 0 (aliceFile "docs" "a") := by
  refine (move_keeps_iff ?_ ?_).mpr ?_
  · intro data hnil
    exact nomatch hnil
  · intro l d hf
    exact aliceFile_small hf
  · rintro ⟨-, -, hplace⟩
    exact absurd hplace (by decide)

/-- The bucket `my_b` is the bucket `my-b`: the copy is written over its source and then deleted. -/
theorem move_within_one_bucket :
    ¬ MoveKeeps Unit alice (lit "my_b") (lit "a") (lit "my-b") (lit "a") 0 (aliceFile "my-b" "a") := by
  rintro ⟨hsome, -⟩
  have hread : (getObject alice (lit "my_b") (lit "a") (aliceFile "my-b" "a")).value.toOption = some (some []) := by
    decide
  have hmoved : (moveObject (F := Unit) alice (lit "my_b") (lit "a") (lit "my-b") (lit "a") 0
      (aliceFile "my-b" "a")).value.toOption = some (some (Host.md5 [])) := by decide +kernel
  have hgone : (getObject alice (lit "my-b") (lit "a") (moveObject (F := Unit) alice (lit "my_b") (lit "a") (lit "my-b")
      (lit "a") 0 (aliceFile "my-b" "a")).tree).value.toOption = some none := by decide +kernel
  cases hv : (moveObject (F := Unit) alice (lit "my_b") (lit "a") (lit "my-b") (lit "a") 0 (aliceFile "my-b" "a")).value with
  | error e =>
    rw [hv] at hmoved
    cases hmoved
  | ok etag =>
    rw [hv] at hmoved
    cases hmoved
    rw [hsome _ hv, hread] at hgone
    cases hgone

end Example

end IsaCloud.Storage
