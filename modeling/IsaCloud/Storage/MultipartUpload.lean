import IsaCloud.Storage.MinioBuckets
import IsaCloud.Support.Encoding
import Mathlib.Data.List.Range

/-!
# Uploads in parts

`upload_large_file` sends every chunk it reads from the file as one part, and at
the end of the file has the server put the parts together; at an exception it has
the upload aborted. The server follows the rules of S3: parts are numbered from 1
to 10000, an upload is completed from a list of parts in ascending order that is
not empty, and every part but the last of them has 5 MiB. Any of the requests that
send a part may fail, and is not applied then.
-/

namespace IsaCloud.Storage

set_option autoImplicit false

open Support Support.Text Support.Encoding

/-! ## The server -/

structure Object where
  content : Bytes
  contentType : Str

structure PendingUpload where
  bucket : Str
  key : Str
  contentType : Str
  parts : Nat → Option Bytes

/-- Upload ids are not used again. -/
structure ObjectServer where
  buckets : List Str
  objects : Str → Str → Option Object
  uploads : Nat → Option PendingUpload
  next : Nat
  fresh : ∀ id, next ≤ id → uploads id = none

def maxParts : Nat := 10000

def minPartSize : Nat := 5 * 1024 * 1024

section Server
variable (etag : Bytes → Str)

/-- The bodies of the parts that a completion lists by number and tag. -/
def listedBodies (parts : Nat → Option Bytes) : List (Nat × Str) → Option (List Bytes)
  | [] => some []
  | (number, tag) :: listed =>
    match parts number with
    | none => none
    | some body => if etag body = tag then (listedBodies parts listed).map fun bodies => body :: bodies else none

/-- What a completion puts together. -/
def assemble (parts : Nat → Option Bytes) (listed : List (Nat × Str)) : Option Bytes :=
  match listedBodies etag parts listed with
  | none => none
  | some bodies =>
    if listed ≠ [] ∧ (listed.map Prod.fst).Pairwise (· < ·) ∧ ∀ body ∈ bodies.dropLast, minPartSize ≤ body.length then
      some bodies.flatten
    else none

namespace ObjectServer
variable (s : ObjectServer) (bucket key : Str)

def createMultipartUpload (contentType : Str) : Option (ObjectServer × Nat) :=
  if bucket ∈ s.buckets then
    some ({ s with
      uploads := Function.update s.uploads s.next (some ⟨bucket, key, contentType, fun _ => none⟩)
      next := s.next + 1
      fresh := by
        intro id hid
        exact (Function.update_of_ne (by omega) _ _).trans (s.fresh id (by omega)) }, s.next)
  else none

/-- The upload a request names. -/
def named (id : Nat) : Option PendingUpload := (s.uploads id).filter fun u => decide (u.bucket = bucket ∧ u.key = key)

theorem lt_next_of_named {id : Nat} {u : PendingUpload} (h : s.named bucket key id = some u) : id < s.next := by
  by_contra hlate
  rw [named, s.fresh id (Nat.not_lt.mp hlate)] at h
  cases h

def uploadPart (id number : Nat) (body : Bytes) : Option ObjectServer :=
  match hnamed : s.named bucket key id with
  | none => none
  | some u =>
    if 1 ≤ number ∧ number ≤ maxParts then
      some { s with
        uploads := Function.update s.uploads id (some { u with parts := Function.update u.parts number (some body) })
        fresh := by
          intro id' hid'
          have hlt := s.lt_next_of_named bucket key hnamed
          exact (Function.update_of_ne (by omega) _ _).trans (s.fresh id' hid') }
    else none

theorem uploadPart_of_named {id number : Nat} {u : PendingUpload} (h : s.named bucket key id = some u)
    (hnumber : 1 ≤ number ∧ number ≤ maxParts) (body : Bytes) :
    ∃ s', s.uploadPart bucket key id number body = some s' ∧ s'.objects = s.objects ∧
      s'.uploads = Function.update s.uploads id (some { u with parts := Function.update u.parts number (some body) }) := by
  unfold uploadPart
  split
  · rename_i hnone
    rw [h] at hnone
    cases hnone
  · rename_i u' hu'
    rw [h] at hu'
    cases hu'
    rw [if_pos hnumber]
    exact ⟨_, rfl, rfl, rfl⟩

/-- The server without an upload. -/
def close (id : Nat) : ObjectServer :=
  { s with
    uploads := Function.update s.uploads id none
    fresh := by
      intro id' hid'
      by_cases h : id' = id
      · subst h
        exact Function.update_self _ _ _
      · exact (Function.update_of_ne h _ _).trans (s.fresh id' hid') }

def completeMultipartUpload (id : Nat) (listed : List (Nat × Str)) : Option ObjectServer :=
  match s.named bucket key id with
  | none => none
  | some u =>
    (assemble etag u.parts listed).map fun content =>
      { s.close id with
        objects := Function.update s.objects bucket
          (Function.update (s.objects bucket) key (some ⟨content, u.contentType⟩)) }

end ObjectServer

end Server

/-! ## The client -/

/-- The arguments of `upload_large_file`. The file gives `chunkSize` bytes at a time until fewer are left. -/
structure LargeFile where
  bucketName : Str
  objectKey : Str
  content : Bytes
  fileSize : Option Nat
  contentType : Str
  chunkSize : Nat
  /-- Whether there is a `progress_callback`. -/
  hasCallback : Bool

/-- The variables of the loop, with the server and the calls of the callback. -/
structure Progress where
  server : ObjectServer
  parts : List (Nat × Str)
  partNumber : Nat
  bytesSent : Nat
  reports : List (Nat × Nat)

/-- What an `upload_large_file` returns (`none` after an exception), and what it leaves. -/
structure UploadRun where
  result : Option Bool
  server : ObjectServer
  reports : List (Nat × Nat)

/-- `if progress_callback and file_size`. -/
def LargeFile.report (f : LargeFile) (bytesSent : Nat) : List (Nat × Nat) :=
  match f.fileSize with
  | none => []
  | some fileSize => if f.hasCallback = true ∧ fileSize ≠ 0 then [(bytesSent, fileSize)] else []

/-- No request for a part fails; the file has a part for every chunk that begins in it. -/
def LargeFile.NoPartFails (f : LargeFile) (fails : Nat → Bool) : Prop :=
  ∀ n, n * f.chunkSize < f.content.length → fails (n + 1) = false

namespace MinioClient
variable [Host] (c : MinioClient) (etag : Bytes → Str) (fails : Nat → Bool) (f : LargeFile)

/-- The body of the loop. -/
def uploadChunk (id : Nat) (p : Progress) (chunk : Bytes) : Option Progress :=
  if fails p.partNumber then none
  else
    (p.server.uploadPart (c.getPrefixedBucketName f.bucketName) f.objectKey id p.partNumber chunk).map fun server =>
      { server := server
        parts := p.parts ++ [(p.partNumber, etag chunk)]
        partNumber := p.partNumber + 1
        bytesSent := p.bytesSent + chunk.length
        reports := p.reports ++ f.report (p.bytesSent + chunk.length) }

/-- The loop, with what is left of the file. An exception leaves the loop where it is. -/
def uploadParts (id : Nat) (left : Bytes) (p : Progress) : Except Progress Progress :=
  if left.take f.chunkSize = [] then .ok p
  else
    match c.uploadChunk etag fails f id p (left.take f.chunkSize) with
    | none => .error p
    | some p' => uploadParts id (left.drop f.chunkSize) p'
termination_by left.length
decreasing_by
  rename_i hchunk
  rw [List.take_eq_nil_iff, not_or] at hchunk
  have hleft := List.length_pos_iff.mpr hchunk.2
  rw [List.length_drop]
  omega

/-- `bucket_exists`, and `create_bucket` if it is not. -/
def ensureBucket (s : ObjectServer) : ObjectServer :=
  if c.bucketExists f.bucketName s.buckets then s else { s with buckets := c.createBucket f.bucketName s.buckets }

def uploadLargeFile (s : ObjectServer) : UploadRun :=
  match (c.ensureBucket f s).createMultipartUpload (c.getPrefixedBucketName f.bucketName) f.objectKey f.contentType with
  | none => ⟨none, c.ensureBucket f s, []⟩
  | some (opened, id) =>
    match c.uploadParts etag fails f id f.content ⟨opened, [], 1, 0, []⟩ with
    | .error p => ⟨none, p.server.close id, p.reports⟩
    | .ok p =>
      match p.server.completeMultipartUpload etag (c.getPrefixedBucketName f.bucketName) f.objectKey id p.parts with
      | none => ⟨none, p.server.close id, p.reports⟩
      | some server => ⟨some true, server, p.reports⟩

def getObject (s : ObjectServer) (bucketName objectKey : Str) : Option Bytes :=
  (s.objects (c.getPrefixedBucketName bucketName) objectKey).map Object.content

/-- What is promised of an upload to a server. -/
structure RoundTrip (s : ObjectServer) : Prop where
  result : (c.uploadLargeFile etag fails f s).result = some true ↔ f.NoPartFails fails
  stored : (c.uploadLargeFile etag fails f s).result = some true →
    c.getObject (c.uploadLargeFile etag fails f s).server f.bucketName f.objectKey = some f.content
  kept : (c.uploadLargeFile etag fails f s).result ≠ some true →
    (c.uploadLargeFile etag fails f s).server.objects = s.objects
  closed : (c.uploadLargeFile etag fails f s).server.uploads = s.uploads

end MinioClient

/-! ## Parts in order -/

/-- The parts that a loop has sent, the first one with number 1. -/
def storedParts (bodies : List Bytes) (number : Nat) : Option Bytes := if number = 0 then none else bodies[number - 1]?

/-- What it lists of them, from a number on. -/
def listing (etag : Bytes → Str) (start : Nat) : List Bytes → List (Nat × Str)
  | [] => []
  | body :: bodies => (start, etag body) :: listing etag (start + 1) bodies

section Parts
variable (etag : Bytes → Str) (bodies : List Bytes)

theorem storedParts_concat (body : Bytes) :
    Function.update (storedParts bodies) (bodies.length + 1) (some body) = storedParts (bodies ++ [body]) := by
  funext number
  by_cases hlast : number = bodies.length + 1
  · subst hlast
    rw [Function.update_self, storedParts, if_neg (Nat.succ_ne_zero _), Nat.add_sub_cancel, List.getElem?_concat_length]
  · rw [Function.update_of_ne hlast, storedParts, storedParts]
    split
    · rfl
    · rcases Nat.lt_or_ge (number - 1) bodies.length with hlt | hge
      · rw [List.getElem?_append_left hlt]
      · rw [List.getElem?_eq_none hge, List.getElem?_eq_none]
        rw [List.length_append, List.length_singleton]
        omega

theorem listing_concat (start : Nat) (body : Bytes) :
    listing etag start (bodies ++ [body]) = listing etag start bodies ++ [(start + bodies.length, etag body)] := by
  induction bodies generalizing start with
  | nil => rfl
  | cons b bodies ih =>
    rw [List.cons_append, listing, ih, listing, List.cons_append, List.length_cons]
    congr 4
    omega

theorem listing_numbers (start : Nat) : (listing etag start bodies).map Prod.fst = List.range' start bodies.length := by
  induction bodies generalizing start with
  | nil => rfl
  | cons b bodies ih => rw [listing, List.map_cons, ih, List.length_cons, List.range'_succ]

theorem listedBodies_listing {parts : Nat → Option Bytes} {start : Nat}
    (h : ∀ i, i < bodies.length → parts (start + i) = bodies[i]?) :
    listedBodies etag parts (listing etag start bodies) = some bodies := by
  induction bodies generalizing start with
  | nil => rfl
  | cons b bodies ih =>
    have hfirst := h 0 (Nat.zero_lt_succ _)
    have hrest : ∀ i, i < bodies.length → parts (start + 1 + i) = bodies[i]? := by
      intro i hi
      have hnext := h (i + 1) (Nat.succ_lt_succ hi)
      rw [List.getElem?_cons_succ] at hnext
      rw [← hnext]
      congr 1
      omega
    rw [List.getElem?_cons_zero, Nat.add_zero] at hfirst
    rw [listing, listedBodies, hfirst]
    dsimp only
    rw [if_pos rfl, ih hrest, Option.map_some]

/-- The parts of a loop are put together in the order in which they were sent. -/
theorem assemble_listing {bodies : List Bytes} (hne : bodies ≠ []) (hsize : ∀ body ∈ bodies.dropLast, minPartSize ≤ body.length) :
    assemble etag (storedParts bodies) (listing etag 1 bodies) = some bodies.flatten := by
  have hlisted : listedBodies etag (storedParts bodies) (listing etag 1 bodies) = some bodies := by
    apply listedBodies_listing
    intro i _
    rw [storedParts, if_neg (by omega), Nat.add_sub_cancel_left]
  have hlisting : listing etag 1 bodies ≠ [] := by
    intro hnil
    have hnumbers := listing_numbers etag bodies 1
    rw [hnil, List.map_nil] at hnumbers
    have hlength := congrArg List.length hnumbers
    rw [List.length_range'] at hlength
    exact hne (List.length_eq_zero_iff.mp hlength.symm)
  rw [assemble, hlisted]
  dsimp only
  rw [if_pos ⟨hlisting, listing_numbers etag bodies 1 ▸ List.pairwise_lt_range', hsize⟩]

end Parts

/-! ## The loop -/

section Loop
variable [Host] {c : MinioClient} {etag : Bytes → Str} {fails : Nat → Bool} {f : LargeFile}

/-- The upload, these parts of which were sent. -/
def pendingUpload (c : MinioClient) (f : LargeFile) (bodies : List Bytes) : PendingUpload :=
  ⟨c.getPrefixedBucketName f.bucketName, f.objectKey, f.contentType, storedParts bodies⟩

/-- After these parts were sent to a server. -/
structure Sent (c : MinioClient) (etag : Bytes → Str) (f : LargeFile) (s : ObjectServer) (id : Nat) (bodies : List Bytes)
    (p : Progress) : Prop where
  parts : p.parts = listing etag 1 bodies
  partNumber : p.partNumber = bodies.length + 1
  uploads : p.server.uploads = Function.update s.uploads id (some (pendingUpload c f bodies))
  objects : p.server.objects = s.objects

variable {s : ObjectServer} {id : Nat} {bodies : List Bytes} {p : Progress}

theorem Sent.named (h : Sent c etag f s id bodies p) :
    p.server.named (c.getPrefixedBucketName f.bucketName) f.objectKey id = some (pendingUpload c f bodies) := by
  rw [ObjectServer.named, h.uploads, Function.update_self]
  exact Option.filter_eq_some_iff.mpr ⟨rfl, decide_eq_true ⟨rfl, rfl⟩⟩

/-- A request for one more part is applied unless it fails. -/
theorem Sent.uploadChunk (h : Sent c etag f s id bodies p) (hroom : bodies.length < maxParts) (chunk : Bytes) :
    (fails (bodies.length + 1) = true ∧ c.uploadChunk etag fails f id p chunk = none) ∨
      fails (bodies.length + 1) = false ∧
        ∃ p', c.uploadChunk etag fails f id p chunk = some p' ∧ Sent c etag f s id (bodies ++ [chunk]) p' := by
  rw [MinioClient.uploadChunk, h.partNumber]
  cases hfails : fails (bodies.length + 1) with
  | true => exact .inl ⟨rfl, if_pos rfl⟩
  | false =>
    obtain ⟨server, hserver, hobjects, huploads⟩ :=
      ObjectServer.uploadPart_of_named p.server _ _ h.named ⟨Nat.le_add_left 1 _, hroom⟩ chunk
    refine .inr ⟨rfl, _, by rw [if_neg Bool.false_ne_true, hserver, Option.map_some], ?_, ?_, ?_, ?_⟩
    · show p.parts ++ [(bodies.length + 1, etag chunk)] = listing etag 1 (bodies ++ [chunk])
      rw [h.parts, listing_concat, Nat.add_comm 1]
    · rw [List.length_append, List.length_singleton]
    · show server.uploads = _
      rw [huploads, h.uploads, Function.update_idem]
      congr 2
      show PendingUpload.mk _ _ _ _ = PendingUpload.mk _ _ _ _
      congr 1
      exact storedParts_concat bodies chunk
    · exact hobjects.trans h.objects

/-- The loop ends with the file, cut into parts of the size of a chunk but for the last. -/
structure Finished (c : MinioClient) (etag : Bytes → Str) (f : LargeFile) (s : ObjectServer) (id : Nat) (bodies : List Bytes)
    (left : Bytes) (p : Progress) : Prop where
  sent : Sent c etag f s id bodies p
  full : ∀ body ∈ bodies.dropLast, body.length = f.chunkSize
  whole : bodies.flatten = left

/-- The loop sends the rest of the file, or stops at the first request that fails. -/
theorem uploadParts_cases (hchunk : 0 < f.chunkSize) (h : Sent c etag f s id bodies p) (left : Bytes)
    (hfull : ∀ body ∈ bodies.dropLast, body.length = f.chunkSize)
    (hmore : left ≠ [] → ∀ body ∈ bodies, body.length = f.chunkSize)
    (hroom : bodies.length * f.chunkSize + left.length ≤ maxParts * f.chunkSize) :
    ((∀ n, n * f.chunkSize < left.length → fails (bodies.length + n + 1) = false) ∧
        ∃ p' rest, c.uploadParts etag fails f id left p = .ok p' ∧
          Finished c etag f s id (bodies ++ rest) (bodies.flatten ++ left) p') ∨
      (∃ n, n * f.chunkSize < left.length ∧ fails (bodies.length + n + 1) = true) ∧
        ∃ p' sent, c.uploadParts etag fails f id left p = .error p' ∧ Sent c etag f s id sent p' := by
  induction hlength : left.length using Nat.strong_induction_on generalizing left bodies p with
  | _ length ih =>
    subst hlength
    rw [MinioClient.uploadParts]
    split
    · rename_i htake
      have hleft : left = [] := (List.take_eq_nil_iff.mp htake).resolve_left (by omega)
      subst hleft
      refine .inl ⟨fun n hn => absurd hn (Nat.not_lt_zero _), p, [], rfl, ?_⟩
      rw [List.append_nil, List.append_nil]
      exact ⟨h, hfull, rfl⟩
    · rename_i htake
      have hleft : left ≠ [] := fun hnil => htake (by rw [hnil, List.take_nil])
      have hpos := List.length_pos_iff.mpr hleft
      have hfewer : bodies.length < maxParts := by
        by_contra hmany
        have hle := Nat.mul_le_mul_right f.chunkSize (Nat.not_lt.mp hmany)
        omega
      rcases h.uploadChunk hfewer (left.take f.chunkSize) with ⟨hfails, hnone⟩ | ⟨hserved, p', hsome, hsent⟩
      · rw [hnone]
        exact .inr ⟨⟨0, by rwa [Nat.zero_mul], hfails⟩, p, bodies, rfl, h⟩
      · rw [hsome]
        dsimp only
        have hdrop : (left.drop f.chunkSize).length = left.length - f.chunkSize := List.length_drop
        have hchunks : ∀ body ∈ (bodies ++ [left.take f.chunkSize]).dropLast, body.length = f.chunkSize := by
          rw [List.dropLast_concat]
          exact hmore hleft
        have hnext : left.drop f.chunkSize ≠ [] → ∀ body ∈ bodies ++ [left.take f.chunkSize], body.length = f.chunkSize := by
          intro hdropped body hbody
          have hlong := List.length_pos_iff.mpr hdropped
          rcases List.mem_append.mp hbody with hbody | hbody
          · exact hmore hleft body hbody
          · rw [List.mem_singleton.mp hbody, List.length_take]
            omega
        have hlen : (bodies ++ [left.take f.chunkSize]).length = bodies.length + 1 := by
          rw [List.length_append, List.length_singleton]
        have hroom' : (bodies ++ [left.take f.chunkSize]).length * f.chunkSize + (left.drop f.chunkSize).length ≤
            maxParts * f.chunkSize := by
          have hle := Nat.mul_le_mul_right f.chunkSize hfewer
          rw [hlen, hdrop]
          rw [Nat.succ_mul] at hle ⊢
          omega
        have hwhole : (bodies ++ [left.take f.chunkSize]).flatten ++ left.drop f.chunkSize = bodies.flatten ++ left := by
          rw [List.flatten_append, List.flatten_singleton, List.append_assoc, List.take_append_drop]
        -- Part `n + 1` from here on is part `n` of the rest.
        have hshift : ∀ n, (n + 1) * f.chunkSize < left.length ↔ n * f.chunkSize < (left.drop f.chunkSize).length := by
          intro n
          rw [hdrop, Nat.succ_mul]
          omega
        have hnumber : ∀ n, bodies.length + (n + 1) + 1 = (bodies ++ [left.take f.chunkSize]).length + n + 1 := by
          intro n
          rw [hlen]
          omega
        rcases ih _ (by omega) hsent (left.drop f.chunkSize) hchunks hnext hroom' rfl with
          ⟨hnone, p'', rest, hok, hfinished⟩ | ⟨⟨n, hn, hfails⟩, hstuck⟩
        · refine .inl ⟨?_, p'', [left.take f.chunkSize] ++ rest, hok, ?_⟩
          · intro n hn
            cases n with
            | zero => exact hserved
            | succ n => exact hnumber n ▸ hnone n ((hshift n).mp hn)
          · rw [hwhole, List.append_assoc] at hfinished
            exact hfinished
        · exact .inr ⟨⟨n + 1, (hshift n).mpr hn, (hnumber n).symm ▸ hfails⟩, hstuck⟩

end Loop

/-! ## The round trip -/

section RoundTrip
variable [Host] (c : MinioClient) (etag : Bytes → Str) (fails : Nat → Bool) (f : LargeFile) (s : ObjectServer)

omit [Host] in
theorem close_uploads {s server : ObjectServer} {u : PendingUpload}
    (h : server.uploads = Function.update s.uploads s.next (some u)) : (server.close s.next).uploads = s.uploads := by
  show Function.update server.uploads s.next none = s.uploads
  rw [h, Function.update_idem]
  exact Function.update_eq_self_iff.mpr (s.fresh s.next (Nat.le_refl _)).symm

theorem ensureBucket_eq : ∃ buckets, c.getPrefixedBucketName f.bucketName ∈ buckets ∧
    c.ensureBucket f s = { s with buckets := buckets } := by
  rw [MinioClient.ensureBucket]
  split
  · rename_i hexists
    exact ⟨s.buckets, of_decide_eq_true hexists, rfl⟩
  · refine ⟨_, ?_, rfl⟩
    rw [MinioClient.createBucket]
    split
    · assumption
    · exact List.mem_append_right _ List.mem_cons_self

variable {c f s}

/-- The server refuses to complete an upload without parts. -/
theorem complete_nil {opened : ObjectServer} (h : Sent c etag f s s.next [] ⟨opened, [], 1, 0, []⟩) :
    opened.completeMultipartUpload etag (c.getPrefixedBucketName f.bucketName) f.objectKey s.next [] = none := by
  rw [ObjectServer.completeMultipartUpload, h.named]
  rfl

/-- The server puts the file together. -/
theorem Finished.complete {bodies : List Bytes} {p : Progress} (h : Finished c etag f s s.next bodies f.content p)
    (hchunk : minPartSize ≤ f.chunkSize) (hne : f.content ≠ []) :
    ∃ server, p.server.completeMultipartUpload etag (c.getPrefixedBucketName f.bucketName) f.objectKey s.next p.parts =
        some server ∧ server.uploads = (p.server.close s.next).uploads ∧
      server.objects = Function.update p.server.objects (c.getPrefixedBucketName f.bucketName)
        (Function.update (p.server.objects (c.getPrefixedBucketName f.bucketName)) f.objectKey
          (some ⟨f.content, f.contentType⟩)) := by
  have hbodies : bodies ≠ [] := by
    rintro rfl
    exact hne h.whole.symm
  have hcontent : assemble etag (pendingUpload c f bodies).parts p.parts = some f.content := by
    rw [h.sent.parts, ← h.whole]
    exact assemble_listing etag hbodies fun body hbody => h.full body hbody ▸ hchunk
  rw [ObjectServer.completeMultipartUpload, h.sent.named]
  dsimp only
  rw [hcontent, Option.map_some]
  exact ⟨_, rfl, rfl, rfl⟩

variable (c f s)

/-- What an upload comes to: the parts put together, or an abort. -/
theorem uploadLargeFile_cases (hchunk : minPartSize ≤ f.chunkSize) (hparts : f.content.length ≤ maxParts * f.chunkSize) :
    (c.uploadLargeFile etag fails f s).server.uploads = s.uploads ∧
      ((f.NoPartFails fails ∧ f.content ≠ [] ∧ (c.uploadLargeFile etag fails f s).result = some true ∧
          c.getObject (c.uploadLargeFile etag fails f s).server f.bucketName f.objectKey = some f.content) ∨
        (¬ f.NoPartFails fails ∨ f.content = []) ∧ (c.uploadLargeFile etag fails f s).result = none ∧
          (c.uploadLargeFile etag fails f s).server.objects = s.objects) := by
  have hpos : 0 < f.chunkSize := Nat.lt_of_lt_of_le (by decide) hchunk
  obtain ⟨buckets, hbucket, hensured⟩ := ensureBucket_eq c f s
  obtain ⟨opened, hopened, hsent⟩ : ∃ opened,
      (c.ensureBucket f s).createMultipartUpload (c.getPrefixedBucketName f.bucketName) f.objectKey f.contentType =
        some (opened, s.next) ∧ Sent c etag f s s.next [] ⟨opened, [], 1, 0, []⟩ := by
    rw [hensured, ObjectServer.createMultipartUpload, if_pos hbucket]
    refine ⟨_, rfl, rfl, rfl, ?_, rfl⟩
    have hempty : (fun _ => none) = storedParts [] := by
      funext number
      rw [storedParts, List.getElem?_nil, ite_self]
    rw [pendingUpload, ← hempty]
  rw [MinioClient.uploadLargeFile, hopened]
  dsimp only
  by_cases hempty : f.content = []
  · have hloop : c.uploadParts etag fails f s.next f.content ⟨opened, [], 1, 0, []⟩ = .ok ⟨opened, [], 1, 0, []⟩ := by
      rw [MinioClient.uploadParts, if_pos (by rw [hempty, List.take_nil])]
    have hrefused := complete_nil etag hsent
    rw [hloop]
    dsimp only
    rw [hrefused]
    exact ⟨close_uploads hsent.uploads, .inr ⟨.inr hempty, rfl, hsent.objects⟩⟩
  · rcases uploadParts_cases hpos hsent f.content (fun _ hbody => nomatch hbody) (fun _ _ hbody => nomatch hbody)
        (by rwa [List.length_nil, Nat.zero_mul, Nat.zero_add]) with
      ⟨hnone, p, bodies, hok, hfinished⟩ | ⟨⟨n, hn, hfails⟩, p, sent, hstuck, hsent'⟩
    · rw [List.nil_append, List.flatten_nil, List.nil_append] at hfinished
      obtain ⟨server, hserver, huploads, hobjects⟩ := hfinished.complete etag hchunk hempty
      rw [hok]
      dsimp only
      rw [hserver]
      refine ⟨huploads.trans (close_uploads hfinished.sent.uploads), .inl ⟨?_, hempty, rfl, ?_⟩⟩
      · intro n hn
        have hserved := hnone n hn
        rwa [List.length_nil, Nat.zero_add] at hserved
      · rw [MinioClient.getObject, hobjects, Function.update_self, Function.update_self]
        rfl
    · rw [hstuck]
      refine ⟨close_uploads hsent'.uploads, .inr ⟨.inl fun hall => ?_, rfl, hsent'.objects⟩⟩
      have hserved := hall n hn
      rw [List.length_nil, Nat.zero_add] at hfails
      rw [hserved] at hfails
      cases hfails

/-- An upload in parts of a file does what is promised, exactly when the file is not empty. -/
theorem round_trip_iff (hchunk : minPartSize ≤ f.chunkSize) (hparts : f.content.length ≤ maxParts * f.chunkSize) :
    c.RoundTrip etag fails f s ↔ f.content ≠ [] := by
  obtain ⟨huploads, hcases⟩ := uploadLargeFile_cases c etag fails f s hchunk hparts
  constructor
  · intro h hempty
    have hnone : f.NoPartFails fails := by
      intro n hn
      rw [hempty, List.length_nil] at hn
      exact absurd hn (Nat.not_lt_zero _)
    have htrue := h.result.mpr hnone
    rcases hcases with ⟨_, hne, _, _⟩ | ⟨_, hresult, _⟩
    · exact hne hempty
    · rw [hresult] at htrue
      cases htrue
  · intro hne
    rcases hcases with ⟨hnone, _, hresult, hget⟩ | ⟨hfails, hresult, hobjects⟩
    · exact ⟨iff_of_true hresult hnone, fun _ => hget, fun hno => absurd hresult hno, huploads⟩
    · have hno : (c.uploadLargeFile etag fails f s).result ≠ some true := by
        rw [hresult]
        exact nofun
      exact ⟨iff_of_false hno (hfails.resolve_right hne), fun htrue => absurd htrue hno, fun _ => hobjects, huploads⟩

end RoundTrip

/-! ## Two files -/

section Example

attribute [local instance] plainHost

/-- A server without objects. -/
def emptyServer : ObjectServer := ⟨[], fun _ _ => none, fun _ => none, 0, fun _ _ => rfl⟩

def backup (content : Bytes) : LargeFile := ⟨lit "backups", lit "db.dump", content, none, lit "application/octet-stream",
  minPartSize, false⟩

def noTag (_ : Bytes) : Str := []

theorem round_trip_three_bytes :
    minPartSize ≤ (backup [1, 2, 3]).chunkSize ∧
      (backup [1, 2, 3]).content.length ≤ maxParts * (backup [1, 2, 3]).chunkSize ∧
      (MinioClient.RoundTrip ⟨[]⟩ noTag (fun _ => false) (backup [1, 2, 3]) emptyServer ↔ (backup [1, 2, 3]).content ≠ []) :=
  ⟨Nat.le_refl _, by decide,
    round_trip_iff ⟨[]⟩ noTag (fun _ => false) (backup [1, 2, 3]) emptyServer (Nat.le_refl _) (by decide)⟩

theorem empty_file_refused :
    (MinioClient.uploadLargeFile ⟨[]⟩ noTag (fun _ => false) (backup []) emptyServer).result = none ∧
      ¬ MinioClient.RoundTrip ⟨[]⟩ noTag (fun _ => false) (backup []) emptyServer := by
  have hresult : (MinioClient.uploadLargeFile ⟨[]⟩ noTag (fun _ => false) (backup []) emptyServer).result = none := by
    rcases (uploadLargeFile_cases ⟨[]⟩ noTag (fun _ => false) (backup []) emptyServer (Nat.le_refl _) (by decide)).2 with
      ⟨_, hne, _⟩ | ⟨_, hresult, _⟩
    · exact absurd rfl hne
    · exact hresult
  refine ⟨hresult, ?_⟩
  intro h
  have htrue := h.result.mpr fun _ _ => rfl
  rw [hresult] at htrue
  cases htrue

end Example

end IsaCloud.Storage
