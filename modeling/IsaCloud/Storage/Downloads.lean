import IsaCloud.Support.Encoding

/-!
# Downloading to a file

`download_stream` handles its own errors: it logs them and ends, and whoever
iterates over it cannot tell that end from the end of the object. Here that is
`download_to_file`. The server, the file system and the progress callback are given
by what they do at each point of an attempt.
-/

namespace IsaCloud.Storage

set_option autoImplicit false

open Support.Encoding

/-! ## The server -/

/-- What the reads of a body give while these bytes are left; it is `b""` only at their end. -/
inductive Body : Bytes → Type where
  | closed : Body []
  /-- `stream.read` raises. -/
  | broken (left : Bytes) : Body left
  | chunk (data : Bytes) {left : Bytes} (hdata : data ≠ []) (rest : Body left) : Body (data ++ left)

/-- What a request for the object comes to. -/
inductive Response : Option Bytes → Type where
  /-- An exception before there is a body. -/
  | refused (object : Option Bytes) : Response object
  | body {content : Bytes} (b : Body content) : Response (some content)

/-- The chunks up to the end or an exception. -/
def Body.chunks : {content : Bytes} → Body content → List Bytes
  | _, .closed => []
  | _, .broken _ => []
  | _, .chunk data _ rest => data :: rest.chunks

/-- What `download_stream` yields. -/
def downloadStream {object : Option Bytes} : Response object → List Bytes
  | .refused _ => []
  | .body b => b.chunks

/-! ## The caller -/

/-- An exception on the caller's side, and what the file holds then. -/
structure FileFault where
  importError : Bool
  file : Option Bytes

/-- What happens in one attempt. -/
structure Attempt (object : Option Bytes) where
  /-- The `size` of the metadata, which may be missing or not to be had. -/
  size : Option Nat
  openFile : Option FileFault
  response : Response object
  /-- The write after so many bytes. -/
  write : Nat → Option FileFault
  progressCallback : Option (Nat → Nat → Option FileFault)
  close : Option FileFault

namespace Attempt
variable {object : Option Bytes} (a : Attempt object)

def totalSize : Nat := a.size.getD 0

/-- `if progress_callback and total_size`. -/
def progress (bytesReceived : Nat) : Option FileFault :=
  match a.progressCallback with
  | some callback => if a.totalSize = 0 then none else callback bytesReceived a.totalSize
  | none => none

def writeChunks (bytesReceived : Nat) (file : Bytes) : List Bytes → Except FileFault Bytes
  | [] => .ok file
  | chunk :: chunks =>
    match a.write bytesReceived with
    | some f => .error f
    | none =>
      match a.progress (bytesReceived + chunk.length) with
      | some f => .error f
      | none => writeChunks (bytesReceived + chunk.length) (file ++ chunk) chunks

/-- The `with` block. The file is closed in any case, and an exception of that replaces any other. -/
def run : Except FileFault Bytes :=
  match a.openFile with
  | some f => .error f
  | none =>
    match a.close with
    | some f => .error f
    | none => a.writeChunks 0 [] (downloadStream a.response)

end Attempt

structure Download where
  /-- What is returned, `None` after an exception. -/
  result : Option Bool
  file : Option Bytes

section Download
variable {object : Option Bytes} (imported : Option FileFault) (withAiofiles withOpen : Attempt object)

/-- The attempt after `import aiofiles`. -/
def runImported : Except FileFault Bytes :=
  match imported with
  | some f => .error f
  | none => withAiofiles.run

/-- `download_to_file`: an `ImportError`, of the import or a later one, starts it over without `aiofiles`. -/
def downloadToFile : Download :=
  match runImported imported withAiofiles with
  | .ok file => ⟨some true, some file⟩
  | .error f =>
    if f.importError then
      match withOpen.run with
      | .ok file => ⟨some true, some file⟩
      | .error f => ⟨none, f.file⟩
    else ⟨none, f.file⟩

end Download

def truthy (result : Option Bool) : Bool := result.getD false

/-- `True` means that the file holds the whole object, and all else is falsy. -/
structure Download.Truthful (object : Option Bytes) (d : Download) : Prop where
  complete : d.result = some true → ∃ content, object = some content ∧ d.file = some content
  failure : d.result ≠ some true → truthy d.result = false

/-! ## What goes wrong where -/

/-- No byte is left when the body ends. -/
def Body.Whole : {content : Bytes} → Body content → Prop
  | _, .closed => True
  | _, .broken left => left = []
  | _, .chunk _ _ rest => rest.Whole

/-- No byte of the object is missing when the request or a read fails, if one does. -/
def Response.Whole : {object : Option Bytes} → Response object → Prop
  | _, .refused object => object = some []
  | _, .body b => b.Whole

/-- How many bytes were received before and after each chunk. -/
def Body.spans (received : Nat) : {content : Bytes} → Body content → List (Nat × Nat)
  | _, .closed => []
  | _, .broken _ => []
  | _, .chunk data _ rest => (received, received + data.length) :: rest.spans (received + data.length)

def Response.spans : {object : Option Bytes} → Response object → List (Nat × Nat)
  | _, .refused _ => []
  | _, .body b => b.spans 0

/-- The exception on the caller's side that ends the attempt. -/
def Attempt.raised {object : Option Bytes} (a : Attempt object) : Option FileFault :=
  a.openFile <|> a.close <|> a.response.spans.findSome? fun span => a.write span.1 <|> a.progress span.2

/-- The attempt that decides was ended by an exception on the caller's side, or has got the whole object. -/
def Undisturbed {object : Option Bytes} (imported : Option FileFault) (withAiofiles withOpen : Attempt object) : Prop :=
  match imported <|> withAiofiles.raised with
  | none => withAiofiles.response.Whole
  | some f => f.importError = true → withOpen.raised.isSome = true ∨ withOpen.response.Whole

/-! ## One attempt -/

theorem Body.flatten_chunks_iff {content : Bytes} (b : Body content) : b.chunks.flatten = content ↔ b.Whole := by
  induction b with
  | closed => exact iff_of_true rfl trivial
  | broken left => exact eq_comm
  | chunk data hdata rest ih =>
    rw [chunks, List.flatten_cons, Whole, ← ih]
    exact List.append_right_inj data

theorem Response.flatten_iff {object : Option Bytes} (r : Response object) :
    object = some (downloadStream r).flatten ↔ r.Whole := by
  cases r with
  | refused object => exact Iff.rfl
  | body b =>
    rw [Option.some.injEq, eq_comm]
    exact b.flatten_chunks_iff

section Attempts
variable {object : Option Bytes} {a : Attempt object}

theorem Attempt.writeChunks_eq {content : Bytes} (b : Body content) (received : Nat) (file : Bytes) :
    a.writeChunks received file b.chunks =
      match (b.spans received).findSome? fun span => a.write span.1 <|> a.progress span.2 with
      | some f => .error f
      | none => .ok (file ++ b.chunks.flatten) := by
  induction b generalizing received file with
  | closed => exact congrArg Except.ok (List.append_nil file).symm
  | broken left => exact congrArg Except.ok (List.append_nil file).symm
  | chunk data hdata rest ih =>
    rw [Body.chunks, Attempt.writeChunks, Body.spans, List.findSome?_cons]
    cases a.write received with
    | some f => rfl
    | none =>
      cases hprogress : a.progress (received + data.length) with
      | some f => rfl
      | none =>
        show a.writeChunks (received + data.length) (file ++ data) rest.chunks = _
        rw [ih, List.append_assoc, ← List.flatten_cons]
        rfl

theorem Attempt.run_eq : a.run =
    match a.raised with
    | some f => .error f
    | none => .ok (downloadStream a.response).flatten := by
  rw [Attempt.run, Attempt.raised]
  cases a.openFile with
  | some f => rfl
  | none =>
    cases a.close with
    | some f => rfl
    | none =>
      cases hresponse : a.response with
      | refused object => rfl
      | body b => exact Attempt.writeChunks_eq b 0 []

end Attempts

/-! ## The whole call -/

theorem Download.truthful_none {object file : Option Bytes} : Truthful object ⟨none, file⟩ :=
  ⟨nofun, fun _ => rfl⟩

theorem Download.truthful_true_iff {object : Option Bytes} {r : Response object} :
    Truthful object ⟨some true, some (downloadStream r).flatten⟩ ↔ r.Whole := by
  rw [← r.flatten_iff]
  constructor
  · intro h
    obtain ⟨content, hobject, hfile⟩ := h.complete rfl
    exact hobject.trans hfile.symm
  · intro h
    exact ⟨fun _ => ⟨_, h, rfl⟩, fun hne => absurd rfl hne⟩

/-- `download_to_file` reports truthfully exactly where the body of the deciding attempt is not cut short. -/
theorem download_truthful_iff {object : Option Bytes} (imported : Option FileFault)
    (withAiofiles withOpen : Attempt object) :
    (downloadToFile imported withAiofiles withOpen).Truthful object ↔ Undisturbed imported withAiofiles withOpen := by
  have hfirst : runImported imported withAiofiles =
      match imported <|> withAiofiles.raised with
      | some f => .error f
      | none => .ok (downloadStream withAiofiles.response).flatten := by
    cases imported with
    | some f => rfl
    | none => exact Attempt.run_eq
  rw [downloadToFile, hfirst, Undisturbed]
  cases imported <|> withAiofiles.raised with
  | none => exact Download.truthful_true_iff
  | some f =>
    by_cases himport : f.importError = true
    · dsimp only
      rw [if_pos himport, Attempt.run_eq]
      cases withOpen.raised with
      | some f => exact iff_of_true Download.truthful_none fun _ => Or.inl rfl
      | none => simp [himport, Download.truthful_true_iff]
    · dsimp only
      rw [if_neg himport]
      exact iff_of_true Download.truthful_none fun h => absurd h himport

/-! ## A connection that is lost -/

/-- Two bytes of four arrive, and nothing goes wrong on the caller's side. -/
def lostConnection : Attempt (some [1, 2, 3, 4]) where
  size := some 4
  openFile := none
  response := .body (.chunk [1, 2] (by decide) (.broken [3, 4]))
  write := fun _ => none
  progressCallback := none
  close := none

theorem lost_connection_reported_complete :
    ¬ (downloadToFile none lostConnection lostConnection).Truthful (some [1, 2, 3, 4]) := by
  intro h
  obtain ⟨content, hobject, hfile⟩ := h.complete rfl
  have hshort : (downloadToFile none lostConnection lostConnection).file = some [1, 2] := rfl
  rw [hshort, ← hobject] at hfile
  exact absurd hfile (by decide)

end IsaCloud.Storage
