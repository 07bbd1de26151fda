import IsaCloud.Storage.Containment
import IsaCloud.Support.JsonLineEnds
import IsaCloud.Support.FileWalk

/-!
# Buckets and keys as a map

What the storage of one user is for: a map from bucket and key to data, content
type and metadata. The actions of the client, what the map answers to them, and
where a key that is plain text is kept in the tree.
-/

namespace IsaCloud.Storage

set_option autoImplicit false

open Support Support.Text Support.Python Support.Encoding Support.FileTree Support.PosixPath Support.Json

/-! ## The map -/

structure Entry where
  data : Bytes
  contentType : Str
  metadata : Dict Str Str
  storedAt : DateTime.Instant

abbrev ObjectMap := Str → Str → Option Entry

namespace ObjectMap

def empty : ObjectMap := fun _ _ => none

def put (M : ObjectMap) (bucketName key : Str) (e : Entry) : ObjectMap :=
  fun b k => if b = bucketName ∧ k = key then some e else M b k

def remove (M : ObjectMap) (bucketName key : Str) : ObjectMap :=
  fun b k => if b = bucketName ∧ k = key then none else M b k

end ObjectMap

inductive Act where
  | createBucket (bucketName : Str)
  | putObject (bucketName key : Str) (data : Bytes) (contentType : Option Str)
      (metadata : Option (Dict Str Str)) (now : DateTime.Instant)
  | getObject (bucketName key : Str)
  | getObjectInfo (bucketName key : Str)
  | objectExists (bucketName key : Str)
  | deleteObject (bucketName key : Str)
  | listObjects (bucketName keyPrefix : Str) (limit : Int)
  | deleteBucket (bucketName : Str)

inductive Reply (F : Type) where
  | done (r : Option Bool)
  | etag (r : Option Str)
  | data (r : Option Bytes)
  | info (r : Option (ObjectInfo F))
  | found (r : Bool)
  | listing (r : List (ObjectInfo F))

section Model
variable [Host] {F : Type} [PyFloat F]

def optionJson : Option Str → Json F
  | none => .null
  | some s => .str s

def dictJson (d : Dict Str Str) : Json F := .obj (d.entries.map fun e => (e.1, .str e.2))

def optionDictJson : Option (Dict Str Str) → Json F
  | none => .null
  | some d => dictJson d

/-- The content type an object is stored with. -/
def resolvedType (contentType : Option Str) (key : Str) : Str :=
  match contentType with
  | none | some [] => guessedType key
  | some t => t

def Entry.of (key : Str) (data : Bytes) (contentType : Option Str) (metadata : Option (Dict Str Str))
    (now : DateTime.Instant) : Entry :=
  ⟨data, resolvedType contentType key, metadata.getD Dict.empty, now⟩

def Entry.info (bucketName key : Str) (e : Entry) : ObjectInfo F where
  key := key
  bucket := bucketName
  size := .int e.data.length
  contentType := .str e.contentType
  etag := .str (Host.md5 e.data)
  lastModified := .str (IsoTime.isoformat e.storedAt)
  metadata := dictJson e.metadata

def ObjectMap.next (M : ObjectMap) : Act → ObjectMap
  | .putObject b k data contentType metadata now => M.put b k (Entry.of k data contentType metadata now)
  | .deleteObject b k => M.remove b k
  | _ => M

/-- A listing: stored keys with the prefix, each once, all of them unless the limit is reached. -/
structure Lists (M : ObjectMap) (bucketName keyPrefix : Str) (limit : Int) (infos : List (ObjectInfo F)) : Prop where
  nodup : (infos.map ObjectInfo.key).Nodup
  stored : ∀ i ∈ infos, ∃ e, M bucketName i.key = some e ∧ keyPrefix <+: i.key ∧ i = e.info bucketName i.key
  bounded : infos.length ≤ limit.toNat
  complete : (∀ k e, M bucketName k = some e → keyPrefix <+: k → k ∈ infos.map ObjectInfo.key) ∨
    infos.length = limit.toNat

/-- What the map answers. -/
def ObjectMap.Answers (M : ObjectMap) : Act → Reply F → Prop
  | .createBucket _, r => r = .done (some true)
  | .putObject _ _ data _ _ _, r => r = .etag (some (Host.md5 data))
  | .getObject b k, r => r = .data ((M b k).map Entry.data)
  | .getObjectInfo b k, r => r = .info ((M b k).map (Entry.info b k))
  | .objectExists b k, r => r = .found (M b k).isSome
  | .deleteObject _ _, r => r = .done (some true)
  | .listObjects b pre limit, r => ∃ infos, r = .listing infos ∧ Lists M b pre limit infos
  | .deleteBucket b, r => ∃ empty : Bool, r = .done (some empty) ∧ (empty = true ↔ ∀ k, M b k = none)

/-! ## The client's side -/

variable [ScanOrder Name Bytes]

def Act.run (c : Client) : Act → Io (Reply F)
  | .createBucket b => do return .done (← Storage.createBucket c b)
  | .putObject b k data contentType metadata now => do
    return .etag (← Storage.putObject (F := F) c b k data (optionJson contentType) (optionDictJson metadata) now)
  | .getObject b k => do return .data (← Storage.getObject c b k)
  | .getObjectInfo b k => do return .info (← Storage.getObjectInfo c b k)
  | .objectExists b k => do return .found (← Storage.objectExists c b k)
  | .deleteObject b k => do return .done (← Storage.deleteObject c b k)
  | .listObjects b pre limit => do return .listing (← Storage.listObjects c b pre limit)
  | .deleteBucket b => do return .done (← Storage.deleteBucket c b)

variable (F) in
def Act.step (c : Client) (t : Files) (a : Act) : Files := (a.run (F := F) c t).tree

end Model

/-! ## Metadata files -/

section Record
variable [Host] {F : Type} [PyFloat F]

def Entry.record (e : Entry) : Json F :=
  .obj [(lit "content_type", .str e.contentType), (lit "size", .int e.data.length),
    (lit "etag", .str (Host.md5 e.data)), (lit "last_modified", .str (IsoTime.isoformat e.storedAt)),
    (lit "metadata", dictJson e.metadata)]

variable (F) in
def Entry.recordBytes (e : Entry) : Bytes := (Json.indented 0 (e.record : Json F)).flatMap encodePoint

/-- The texts survive JSON, and the size is one a `bytes` object can have. -/
structure Entry.Sound (e : Entry) : Prop where
  size : e.data.length < 2 ^ 63
  contentType : splitFree e.contentType = true
  metadata : ∀ kv ∈ e.metadata.entries, splitFree kv.1 = true ∧ splitFree kv.2 = true

theorem metaRecord_eq (key : Str) (data : Bytes) (contentType : Option Str) (metadata : Option (Dict Str Str))
    (now : DateTime.Instant) :
    metaRecord key data (optionJson contentType) (optionDictJson metadata) now =
      ((Entry.of key data contentType metadata now).record : Json F) := by
  have htype : storedType (optionJson contentType) key = (.str (resolvedType contentType key) : Json F) := by
    cases contentType with
    | none => rfl
    | some s => cases s <;> rfl
  have hmeta : (if (optionDictJson metadata : Json F).truthy then optionDictJson metadata else .obj []) =
      (dictJson (metadata.getD Dict.empty) : Json F) := by
    cases metadata with
    | none => rfl
    | some d =>
      cases hd : d.entries with
      | nil => simp [optionDictJson, dictJson, Json.truthy, hd]
      | cons e es => simp [optionDictJson, dictJson, Json.truthy, hd]
  rw [metaRecord, htype, hmeta]
  rfl

omit [Host] in
theorem splitFree_ascii {s : Str} (h : Ascii s) : splitFree s = true := by
  induction s with
  | nil => rfl
  | cons a s ih =>
    have hs := ih fun c hc => h c (List.mem_cons_of_mem a hc)
    cases s with
    | nil => rfl
    | cons b s =>
      have ha := h a (List.mem_cons_self ..)
      have hlow : isHigh a.val = false := decide_eq_false (by omega)
      rw [splitFree, hlow, Bool.false_and, Bool.not_false, Bool.true_and]
      exact hs

omit [Host] in
theorem ascii_isoformat (t : DateTime.Instant) : Ascii (IsoTime.isoformat t) := by
  have hpad : ∀ w n, Ascii (padText w n) := by
    intro w n c hc
    have := of_decide_eq_true (isDigit_of_mem_padText hc)
    omega
  have hlit : Ascii (lit "+00:00") := by
    intro c hc
    have hall : (lit "+00:00").all (fun c => decide (c.val < 0x80)) = true := by decide
    exact of_decide_eq_true (List.all_eq_true.mp hall c hc)
  have hmicro : Ascii (if DateTime.microsecondOf t = 0 then [] else cp '.' :: padText 6 (DateTime.microsecondOf t)) := by
    split
    · exact fun c hc => nomatch hc
    · exact Ascii.cons (by decide) (hpad 6 _)
  have hdate : Ascii (IsoTime.dateText (padText 4 (DateTime.dateOf t).year) t) :=
    (hpad 4 _).append (Ascii.cons (by decide) ((hpad 2 _).append (Ascii.cons (by decide) (hpad 2 _))))
  have hclock : Ascii (IsoTime.clockText t) :=
    (hpad 2 _).append (Ascii.cons (by decide) ((hpad 2 _).append (Ascii.cons (by decide) (hpad 2 _))))
  exact hdate.append (Ascii.cons (by decide) (hclock.append (hmicro.append hlit)))

omit [Host] [PyFloat F] in
theorem wf_dictJson {d : Dict Str Str} (h : ∀ kv ∈ d.entries, splitFree kv.1 = true ∧ splitFree kv.2 = true) :
    Json.WF (dictJson d : Json F) := by
  refine ⟨?_, wfMembers_iff.mpr ?_⟩
  · have hkeys : Members.keys (d.entries.map fun e => (e.1, (.str e.2 : Json F))) = d.keys := by
      simp [Members.keys, Dict.keys, List.map_map, Function.comp_def]
    rw [hkeys]
    exact d.keys_nodup
  · intro kv hkv
    obtain ⟨e, he, rfl⟩ := List.mem_map.mp hkv
    exact h e he

omit [PyFloat F] in
theorem wf_record {e : Entry} (h : e.Sound) : Json.WF (e.record : Json F) := by
  have hsize : (natText e.data.length).length ≤ intMaxStrDigits := by
    have hlt : e.data.length < 10 ^ 20 := Nat.lt_of_lt_of_le h.size (by decide)
    exact (natText_length_le hlt (by decide)).trans (by decide)
  have hkeys : ([lit "content_type", lit "size", lit "etag", lit "last_modified", lit "metadata"] : List Str).Nodup ∧
      ([lit "content_type", lit "size", lit "etag", lit "last_modified", lit "metadata"] : List Str).all splitFree = true := by
    decide
  obtain ⟨hnodup, hsplit⟩ := hkeys
  simp only [List.all_cons, List.all_nil, Bool.and_true, Bool.and_eq_true] at hsplit
  obtain ⟨h1, h2, h3, h4, h5⟩ := hsplit
  exact ⟨hnodup, ⟨h1, h.contentType, h2, hsize, h3, splitFree_ascii (Host.md5_ascii _), h4,
    splitFree_ascii (ascii_isoformat _), h5, wf_dictJson h.metadata, trivial⟩⟩

omit [PyFloat F] in
theorem depth_record (e : Entry) : (e.record : Json F).depth ≤ 2 := by
  have hdict : (dictJson e.metadata : Json F).depth ≤ 1 := by
    rw [dictJson, Json.depth]
    have := (depthMembers_le_iff (m := e.metadata.entries.map fun kv => (kv.1, (.str kv.2 : Json F))) (n := 0)).mpr (by
      intro kv hkv
      obtain ⟨x, _, rfl⟩ := List.mem_map.mp hkv
      exact Nat.le_refl 0)
    omega
  have hmembers := (depthMembers_le_iff (m := [(lit "content_type", (.str e.contentType : Json F)),
    (lit "size", .int e.data.length), (lit "etag", .str (Host.md5 e.data)),
    (lit "last_modified", .str (IsoTime.isoformat e.storedAt)), (lit "metadata", dictJson e.metadata)]) (n := 1)).mpr (by
      intro kv hkv
      simp only [List.mem_cons, List.not_mem_nil, or_false] at hkv
      rcases hkv with rfl | rfl | rfl | rfl | rfl
      · exact Nat.zero_le 1
      · exact Nat.zero_le 1
      · exact Nat.zero_le 1
      · exact Nat.zero_le 1
      · exact hdict)
  rw [Entry.record, Json.depth]
  omega

omit [PyFloat F] in
theorem infoOf_record (bucketName key : Str) (e : Entry) :
    infoOf bucketName key (e.record : Json F) = .ok (e.info bucketName key) := by
  have hget : ∀ m : Members F, infoOf bucketName key (.obj m) = .ok
      { key := key
        bucket := bucketName
        size := (Members.get m (lit "size")).getD (.int 0)
        contentType := (Members.get m (lit "content_type")).getD (.str octetStream)
        etag := (Members.get m (lit "etag")).getD (.str [])
        lastModified := (Members.get m (lit "last_modified")).getD (.str [])
        metadata := (Members.get m (lit "metadata")).getD (.obj []) } := fun _ => rfl
  rw [Entry.record, hget]
  rfl

variable [LawfulPyFloat F]

theorem encode_record (e : Entry) :
    utf8Encode (Json.indented 0 (e.record : Json F)) = .ok (e.recordBytes F) :=
  utf8Encode_ascii (ascii_indented _ 0)

/-- A metadata file is read as the record it was written from. -/
theorem read_record {e : Entry} (h : e.Sound) :
    ∃ text, readText (e.recordBytes F) = .ok text ∧ Json.loads Host.nesting text = .ok (e.record : Json F) := by
  have hspell : Spelling (e.record : Json F) (Json.indented 0 (e.record : Json F)) :=
    ⟨[], _, [], blank_nil, spells_indented _ 0, blank_nil, by simp⟩
  obtain ⟨text, hread, htext⟩ := readText_spelling hspell (encode_record e)
  exact ⟨text, hread, loads_spelling (wf_record h) ((depth_record e).trans Host.nesting_pos) htext⟩

end Record

/-! ## Keys as file names -/

def nameText (n : Name) : Str := fsdecode n.bytes

/-- A name that is plain text, and the name of that text. -/
structure Clean (n : Name) : Prop where
  ordinary : Ordinary (nameText n)
  named : component (nameText n) = some (.name n)

def keyText (ns : List Name) : Str := text (ns.map nameText)

/-- The key is a relative path of ordinary segments. -/
def SimpleKey (key : Str) : Prop := ∀ seg ∈ key.splitOn slash, Ordinary seg

instance (key : Str) : Decidable (SimpleKey key) := inferInstanceAs (Decidable (∀ seg ∈ key.splitOn slash, Ordinary seg))

theorem clean_of_ordinary {seg : Str} (h : Ordinary seg) : ∃ n, Clean n ∧ nameText n = seg := by
  have ht : nameText h.name = seg := h.decode
  refine ⟨h.name, ⟨?_, ?_⟩, ht⟩
  · rw [ht]
    exact h
  · rw [ht]
    exact h.component

theorem clean_names {segs : List Str} (h : ∀ seg ∈ segs, Ordinary seg) :
    ∃ ns : List Name, ns.map nameText = segs ∧ ∀ n ∈ ns, Clean n := by
  induction segs with
  | nil => exact ⟨[], rfl, fun n hn => nomatch hn⟩
  | cons seg segs ih =>
    obtain ⟨ns, hns, hclean⟩ := ih fun s hs => h s (List.mem_cons_of_mem seg hs)
    obtain ⟨m, hc, ht⟩ := clean_of_ordinary (h seg (List.mem_cons_self ..))
    refine ⟨m :: ns, ?_, ?_⟩
    · rw [List.map_cons, ht, hns]
    · intro n hn
      rcases List.mem_cons.mp hn with rfl | hn
      · exact hc
      · exact hclean n hn

theorem SimpleKey.names {key : Str} (h : SimpleKey key) :
    ∃ ns : List Name, key = keyText ns ∧ ns ≠ [] ∧ ∀ n ∈ ns, Clean n := by
  obtain ⟨ns, hns, hclean⟩ := clean_names h
  refine ⟨ns, ?_, ?_, hclean⟩
  · rw [keyText, hns, text, List.intercalate_splitOn]
  · rintro rfl
    exact List.splitOn_ne_nil slash key hns.symm

theorem Clean.inj {a b : Name} (ha : Clean a) (hb : Clean b) (h : nameText a = nameText b) : a = b := by
  have hn := ha.named
  rw [h, hb.named] at hn
  exact (Comp.name.inj (Option.some.inj hn)).symm

theorem map_nameText_inj {as bs : List Name} (ha : ∀ n ∈ as, Clean n) (hb : ∀ n ∈ bs, Clean n)
    (h : as.map nameText = bs.map nameText) : as = bs := by
  induction as generalizing bs with
  | nil => cases bs with
    | nil => rfl
    | cons b bs => cases h
  | cons a as ih => cases bs with
    | nil => cases h
    | cons b bs =>
      rw [List.map_cons, List.map_cons, List.cons.injEq] at h
      rw [(ha a (List.mem_cons_self ..)).inj (hb b (List.mem_cons_self ..)) h.1,
        ih (fun n hn => ha n (List.mem_cons_of_mem a hn)) (fun n hn => hb n (List.mem_cons_of_mem b hn)) h.2]

theorem segments_keyText {ns : List Name} (h : ∀ n ∈ ns, Clean n) (hne : ns ≠ []) :
    segments (keyText ns) = ns.map nameText := by
  refine segments_text ?_ (by simpa using hne)
  intro seg hs
  obtain ⟨n, hn, rfl⟩ := List.mem_map.mp hs
  exact (h n hn).ordinary.segment

theorem keyText_inj {as bs : List Name} (ha : ∀ n ∈ as, Clean n) (hb : ∀ n ∈ bs, Clean n) (hae : as ≠ [])
    (hbe : bs ≠ []) (h : keyText as = keyText bs) : as = bs := by
  refine map_nameText_inj ha hb ?_
  rw [← segments_keyText ha hae, ← segments_keyText hb hbe, h]

/-! ## The metadata file beside an object -/

theorem Clean.meta_ordinary {n : Name} (h : Clean n) : Ordinary (nameText n ++ metaSuffix) := by
  obtain ⟨hne, hdot, hup⟩ := metaSuffix_append_ne (nameText n)
  have hall : metaSuffix.all (fun c => decide (c ≠ slash) && decide (c ≠ 0) && !isSurrogate c.val) = true := by
    decide
  have hsuffix : ∀ c ∈ metaSuffix, (c ≠ slash ∧ c ≠ 0) ∧ isSurrogate c.val = false := by
    intro c hc
    have := List.all_eq_true.mp hall c hc
    simpa only [Bool.and_eq_true, decide_eq_true_eq, Bool.not_eq_true'] using this
  refine ⟨⟨hne, hdot, ?_⟩, hup, ?_, ?_⟩
  · rw [List.mem_append, not_or]
    exact ⟨h.ordinary.segment.2.2, fun hm => (hsuffix _ hm).1.1 rfl⟩
  · rw [List.mem_append, not_or]
    exact ⟨h.ordinary.no_nul, fun hm => (hsuffix _ hm).1.2 rfl⟩
  · intro c hc
    rcases List.mem_append.mp hc with hc | hc
    · exact h.ordinary.scalar c hc
    · exact (hsuffix c hc).2

def sidecar (n : Name) : Name :=
  match component (nameText n ++ metaSuffix) with
  | some (.name m) => m
  | _ => n

theorem Clean.sidecar {n : Name} (h : Clean n) :
    component (nameText n ++ metaSuffix) = some (.name (sidecar n)) ∧
      nameText (sidecar n) = nameText n ++ metaSuffix := by
  have hc := h.meta_ordinary.component
  have hs : Storage.sidecar n = h.meta_ordinary.name := by rw [Storage.sidecar, hc]
  rw [hs]
  exact ⟨hc, h.meta_ordinary.decode⟩

theorem isMeta_iff {n : Name} : isMeta n = true ↔ metaSuffix <:+ nameText n := by
  rw [isMeta, List.isSuffixOf_iff_suffix]
  rfl

theorem Clean.isMeta_sidecar {n : Name} (h : Clean n) : isMeta (Storage.sidecar n) = true := by
  rw [isMeta_iff, h.sidecar.2]
  exact List.suffix_append _ _

theorem Clean.sidecar_inj {a b : Name} (ha : Clean a) (hb : Clean b)
    (h : Storage.sidecar a = Storage.sidecar b) : a = b := by
  have ht := congrArg nameText h
  rw [ha.sidecar.2, hb.sidecar.2] at ht
  exact ha.inj hb (List.append_cancel_right ht)

/-- The key of the metadata file. -/
def beside (ns : List Name) : List Name := ns.dropLast ++ ns.getLast?.toList.map sidecar

@[simp] theorem beside_concat (p : List Name) (n : Name) : beside (p ++ [n]) = p ++ [sidecar n] := by
  simp [beside]

/-! ## Where a simple key is kept -/

theorem fspath_names {ns : List Name} (h : ∀ n ∈ ns, Clean n) : fspath (ns.map nameText) = some (ns.map .name) := by
  induction ns with
  | nil => rfl
  | cons n ns ih =>
    rw [List.map_cons, fspath, (h n (List.mem_cons_self ..)).named, ih fun x hx => h x (List.mem_cons_of_mem n hx)]
    rfl

theorem join_keyText (p : Path) {ns : List Name} (hns : ∀ n ∈ ns, Clean n) (hne : ns ≠ []) :
    join p (keyText ns) = p ++ ns.map nameText := by
  refine join_text ?_ (by simpa using hne)
  intro seg hs
  obtain ⟨n, hn, rfl⟩ := List.mem_map.mp hs
  exact (hns n hn).ordinary.segment

section Places
variable [Host]

def SimpleBucket (bucketName : Str) : Prop := safeBucket bucketName = bucketName ∧ Ordinary bucketName

instance (bucketName : Str) : Decidable (SimpleBucket bucketName) :=
  inferInstanceAs (Decidable (safeBucket bucketName = bucketName ∧ Ordinary bucketName))

variable {c : Client} {root : Loc Name} {u m : Name} {b : Str}

theorem getBucketPath_simple (hb : SimpleBucket b) : getBucketPath c b = getUserPath c ++ [b] := by
  rw [getBucketPath, hb.1, join_segment hb.2.segment]

theorem fspath_bucket (hu : fspath (getUserPath c) = some ((root ++ [u]).map .name)) (hb : SimpleBucket b) (hm : component b = some (.name m)) :
    fspath (getBucketPath c b) = some ((root ++ [u, m]).map .name) := by
  rw [getBucketPath_simple hb, fspath_append, hu]
  simp [fspath, hm]

theorem getObjectPath_simple (hu : fspath (getUserPath c) = some ((root ++ [u]).map .name)) (hb : SimpleBucket b) (hm : component b = some (.name m))
    {ns : List Name} (hns : ∀ n ∈ ns, Clean n) (hne : ns ≠ []) :
    getObjectPath c b (keyText ns) = .ok (getBucketPath c b ++ ns.map nameText) ∧
      fspath (getBucketPath c b ++ ns.map nameText) = some ((root ++ u :: m :: ns).map .name) := by
  have hbucket := fspath_bucket hu hb hm
  have hobject : fspath (getBucketPath c b ++ ns.map nameText) = some ((root ++ u :: m :: ns).map .name) := by
    rw [fspath_append, hbucket, fspath_names hns]
    simp
  refine ⟨?_, hobject⟩
  have hres : resolve (getBucketPath c b) <+: resolve (getBucketPath c b ++ ns.map nameText) := by
    rw [resolve_append]
    · exact List.prefix_append _ _
    · intro seg hs
      obtain ⟨n, hn, rfl⟩ := List.mem_map.mp hs
      exact (hns n hn).ordinary.not_up
  unfold getObjectPath
  dsimp only
  rw [join_keyText _ hns hne, hbucket, hobject]
  simp only [Option.isSome_some, true_and, hres, if_true]

theorem fspath_meta (hu : fspath (getUserPath c) = some ((root ++ [u]).map .name)) (hb : SimpleBucket b) (hm : component b = some (.name m))
    {ns : List Name} (hns : ∀ n ∈ ns, Clean n) (hne : ns ≠ []) :
    fspath (getMetadataPath (getBucketPath c b ++ ns.map nameText)) =
      some ((root ++ u :: m :: beside ns).map .name) := by
  rcases List.eq_nil_or_concat ns with rfl | ⟨p, n, rfl⟩
  · exact absurd rfl hne
  rw [List.concat_eq_append] at hns ⊢
  have hn : Clean n := hns n (by simp)
  have hlast : getBucketPath c b ++ (p ++ [n]).map nameText =
      (getBucketPath c b ++ p.map nameText) ++ [nameText n] := by simp
  have hparent : parent (getBucketPath c b ++ (p ++ [n]).map nameText) = getBucketPath c b ++ p.map nameText := by
    rw [hlast, parent, List.dropLast_concat]
  have hname : name (getBucketPath c b ++ (p ++ [n]).map nameText) = nameText n := by
    rw [hlast]
    simp [name]
  rw [getMetadataPath, hparent, hname, join_segment hn.meta_ordinary.segment, fspath_append, fspath_append, fspath_bucket hu hb hm,
    fspath_names fun x hx => hns x (List.mem_append_left _ hx), beside_concat]
  simp [fspath, hn.sidecar.1]

end Places

end IsaCloud.Storage
