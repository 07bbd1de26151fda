import IsaCloud.Support.PosixPath
import IsaCloud.Support.PyJson
import IsaCloud.Support.JsonText
import IsaCloud.Support.IsoTime

/-!
# The local storage client

`AsyncLocalStorageClient` of a connected client: buckets are directories below
the user's directory, an object is a file in its bucket and its metadata a JSON
file beside it. The file system calls are those of the source in its order; log
lines are left out. `str.lower`, the MIME tables, MD5 and what `stat` says of a
time or of the size of a directory are parameters.
-/

namespace IsaCloud.Storage

set_option autoImplicit false

open Support Support.Text Support.Python Support.Encoding Support.FileTree Support.PosixPath

abbrev Files := Tree Name Bytes

abbrev Io := FileM Name Bytes PyError

class Host where
  lower : Str → Str
  /-- `mimetypes.guess_type(key)[0]`. -/
  guessType : Str → Option Str
  guessType_ascii : ∀ key t, guessType key = some t → Json.Ascii t
  /-- `hashlib.md5(data).hexdigest()`. -/
  md5 : Bytes → Str
  md5_ascii : ∀ data, Json.Ascii (md5 data)
  directorySize : Files → Loc Name → Nat
  /-- `st_mtime` in UTC. -/
  mtime : Files → Loc Name → DateTime.Instant
  /-- How deep the JSON decoder nests. -/
  nesting : Nat
  nesting_pos : 2 ≤ nesting

/-- A client that has connected: the base path is there and given without `..`. -/
structure Client where
  base : Path
  baseLoc : Loc Name
  base_names : fspath base = some (baseLoc.map .name)
  userId : Str
  /-- `user_id or "default"`. -/
  userId_nonempty : userId ≠ []

/-! ## Names -/

def hyphen : CodePoint := cp '-'

def replaceChar (a b : CodePoint) (s : Str) : Str := s.map fun c => if c = a then b else c

/-- `"--" in s`. -/
def hasDouble : Str → Bool
  | a :: b :: s => (decide (a = hyphen) && decide (b = hyphen)) || hasDouble (b :: s)
  | _ => false

/-- `s.replace("--", "-")`. -/
def replaceDouble : Str → Str
  | a :: b :: s => if a = hyphen ∧ b = hyphen then hyphen :: replaceDouble s else a :: replaceDouble (b :: s)
  | s => s

def collapseLoop : Nat → Str → Str
  | 0, s => s
  | n + 1, s => if hasDouble s then collapseLoop n (replaceDouble s) else s

/-- The `while` loop; every pass makes the text shorter. -/
def collapse (s : Str) : Str := collapseLoop s.length s

def stripHyphens (s : Str) : Str :=
  ((s.dropWhile (· == hyphen)).reverse.dropWhile (· == hyphen)).reverse

section Names
variable [Host]

def safeUserId (userId : Str) : Str :=
  stripHyphens (collapse (replaceChar (cp '|') hyphen (replaceChar (cp '_') hyphen (Host.lower userId))))

def safeBucket (bucketName : Str) : Str :=
  stripHyphens (collapse (replaceChar (cp '_') hyphen (Host.lower bucketName)))

def getUserPath (c : Client) : Path :=
  if c.userId ≠ [] then join c.base (lit "user-" ++ safeUserId c.userId) else join c.base (lit "default")

def getBucketPath (c : Client) (bucketName : Str) : Path := join (getUserPath c) (safeBucket bucketName)

def traversalDetected (key : Str) : PyError :=
  ⟨.valueError, lit "Invalid object key '" ++ key ++ lit "': path traversal detected"⟩

/-- A path that cannot be given to the system cannot be resolved either. -/
def getObjectPath (c : Client) (bucketName key : Str) : Except PyError Path :=
  let bucketPath := getBucketPath c bucketName
  let objectPath := join bucketPath key
  if (fspath bucketPath).isSome ∧ (fspath objectPath).isSome ∧ resolve bucketPath <+: resolve objectPath then
    .ok objectPath
  else .error (traversalDetected key)

end Names

def metaSuffix : Str := lit ".meta.json"

def isMeta (n : Name) : Bool := metaSuffix.isSuffixOf (fsdecode n.bytes)

def getMetadataPath (objectPath : Path) : Path := join (parent objectPath) (name objectPath ++ metaSuffix)

/-! ## Calls with a path -/

section Calls
variable {α : Type}

def embeddedNull : PyError := ⟨.valueError, lit "embedded null byte"⟩

def onPath (p : Path) (f : List (Comp Name) → Io α) : Io α :=
  match fspath p with
  | some cs => f cs
  | none => FileM.raise (.raised embeddedNull)

/-- `Path.exists`. -/
def pathExists (p : Path) : Io Bool :=
  match fspath p with
  | some cs => FileM.present cs
  | none => pure false

def ofExcept (x : Except PyError α) : Io α :=
  match x with
  | .ok a => pure a
  | .error e => FileM.raise (.raised e)

/-- `except Exception as e: return self.handle_error(e, …)`. -/
def handleError (m : Io (Option α)) : Io (Option α) := FileM.handle m fun _ => pure none

theorem handleError_ok {m : Io (Option α)} {t t' : Files} {a : Option α} {ls : List (Loc Name)}
    (h : m t = ⟨.ok a, t', ls⟩) : handleError m t = ⟨.ok a, t', ls⟩ := FileM.handle_ok h

theorem handleError_raised {m : Io (Option α)} {t t' : Files} {e : Fault PyError} {ls : List (Loc Name)}
    (h : m t = ⟨.error e, t', ls⟩) : handleError m t = ⟨.ok none, t', ls⟩ := by
  rw [handleError, FileM.handle_raised h]
  show (⟨.ok none, t', ls ++ []⟩ : Outcome Name Bytes PyError (Option α)) = _
  rw [List.append_nil]

end Calls

/-! ## Buckets -/

section Operations
variable [Host]

def createBucket (c : Client) (bucketName : Str) : Io (Option Bool) :=
  handleError do
    onPath (getBucketPath c bucketName) FileM.makeDirs
    pure (some true)

/-- `for f in …: await aiofiles.os.remove(f)`. -/
def removeAll (dir : List (Comp Name)) : List Name → Io Unit
  | [] => pure ()
  | n :: ns => do
    FileM.unlink (dir ++ [.name n])
    removeAll dir ns

def deleteBucket [ScanOrder Name Bytes] (c : Client) (bucketName : Str) : Io (Option Bool) :=
  handleError do
    let bucketPath := getBucketPath c bucketName
    if !(← pathExists bucketPath) then pure (some true)
    else do
      let contents ← onPath bucketPath FileM.scandir
      if (contents.filter fun e => !isMeta e.1).isEmpty then do
        let entries ← onPath bucketPath FileM.scandir
        onPath bucketPath fun dir => removeAll dir (entries.map Prod.fst)
        onPath bucketPath FileM.rmdir
        pure (some true)
      else pure (some false)

/-! ## Objects -/

variable {F : Type} [PyFloat F]

def octetStream : Str := lit "application/octet-stream"

/-- `content_type or "application/octet-stream"` of a guessed type. -/
def guessedType (key : Str) : Str :=
  match Host.guessType key with
  | none | some [] => octetStream
  | some t => t

def storedType (contentType : Json F) (key : Str) : Json F :=
  if contentType.truthy then contentType else .str (guessedType key)

def metaRecord (key : Str) (data : Bytes) (contentType metadata : Json F) (now : DateTime.Instant) : Json F :=
  .obj [(lit "content_type", storedType contentType key), (lit "size", .int data.length),
    (lit "etag", .str (Host.md5 data)), (lit "last_modified", .str (IsoTime.isoformat now)),
    (lit "metadata", if metadata.truthy then metadata else .obj [])]

def putObject (c : Client) (bucketName key : Str) (data : Bytes) (contentType metadata : Json F)
    (now : DateTime.Instant) : Io (Option Str) :=
  handleError do
    let _ ← createBucket c bucketName
    let objectPath ← ofExcept (getObjectPath c bucketName key)
    onPath (parent objectPath) FileM.makeDirs
    onPath objectPath fun cs => FileM.write cs data
    let metadataPath := getMetadataPath objectPath
    -- the file is opened, and so emptied, before the text is made
    onPath metadataPath fun cs => FileM.write cs []
    let text ← ofExcept (Json.dumpsIndent (metaRecord key data contentType metadata now))
    let bytes ← ofExcept (utf8Encode text)
    onPath metadataPath fun cs => FileM.write cs bytes
    pure (some (Host.md5 data))

def getObject (c : Client) (bucketName key : Str) : Io (Option Bytes) :=
  handleError do
    let objectPath ← ofExcept (getObjectPath c bucketName key)
    if !(← pathExists objectPath) then pure none
    else do
      let data ← onPath objectPath FileM.read
      pure (some data)

def removeIfExists (p : Path) : Io Unit := do
  if ← pathExists p then onPath p FileM.unlink else pure ()

def deleteObject (c : Client) (bucketName key : Str) : Io (Option Bool) :=
  handleError do
    let objectPath ← ofExcept (getObjectPath c bucketName key)
    removeIfExists objectPath
    removeIfExists (getMetadataPath objectPath)
    pure (some true)

def objectExists (c : Client) (bucketName key : Str) : Io Bool :=
  FileM.handle (do
    let objectPath ← ofExcept (getObjectPath c bucketName key)
    pathExists objectPath) fun _ => pure false

structure ObjectInfo (F : Type) where
  key : Str
  bucket : Str
  size : Json F
  contentType : Json F
  etag : Json F
  lastModified : Json F
  metadata : Json F

def notADict : PyError := ⟨.attributeError, lit "object has no attribute 'get'"⟩

def infoOf (bucketName key : Str) : Json F → Except PyError (ObjectInfo F)
  | .obj m => .ok
      { key := key
        bucket := bucketName
        size := (Members.get m (lit "size")).getD (.int 0)
        contentType := (Members.get m (lit "content_type")).getD (.str octetStream)
        etag := (Members.get m (lit "etag")).getD (.str [])
        lastModified := (Members.get m (lit "last_modified")).getD (.str [])
        metadata := (Members.get m (lit "metadata")).getD (.obj []) }
  | _ => .error notADict

/-- What is made up for a file without a metadata file; the size and time are those of `stat`. -/
def basicRecord (key : Str) (t : Files) (l : Loc Name) (node : Node Bytes) : Json F :=
  let size := match node with
    | .dir => Host.directorySize t l
    | .file data => data.length
  .obj [(lit "content_type", .str (guessedType key)), (lit "size", .int size),
    (lit "last_modified", .str (IsoTime.isoformat (Host.mtime t l))), (lit "metadata", .obj [])]

def statRecord (key : Str) (cs : List (Comp Name)) : Io (Json F) := fun t =>
  ((FileM.stat cs : Io _) >>= fun r => pure (basicRecord key t r.1 r.2)) t

def readRecord (key : Str) (objectPath metadataPath : Path) : Io (Json F) := do
  if ← pathExists metadataPath then do
    let content ← onPath metadataPath FileM.read
    let text ← ofExcept (readText content)
    ofExcept (Json.loads Host.nesting text)
  else onPath objectPath (statRecord key)

def getObjectInfo (c : Client) (bucketName key : Str) : Io (Option (ObjectInfo F)) :=
  handleError do
    let objectPath ← ofExcept (getObjectPath c bucketName key)
    if !(← pathExists objectPath) then pure none
    else do
      let record ← readRecord key objectPath (getMetadataPath objectPath)
      let info ← ofExcept (infoOf bucketName key record)
      pure (some info)

/-! ## Listing -/

/-- The inner loop of `list_objects`, over the files of the directory `dir` below the bucket. -/
def listFiles (c : Client) (bucketName keyPrefix : Str) (limit : Int) (dir : List Str) :
    List Name → List (ObjectInfo F) → Io (List (ObjectInfo F))
  | [], objects => pure objects
  | file :: files, objects =>
    if isMeta file then listFiles c bucketName keyPrefix limit dir files objects
    else
      let key := text (dir ++ [fsdecode file.bytes])
      if keyPrefix ≠ [] ∧ ¬ keyPrefix <+: key then listFiles c bucketName keyPrefix limit dir files objects
      else do
        let info ← getObjectInfo c bucketName key
        let objects := objects ++ info.toList
        if limit ≤ objects.length then pure objects
        else listFiles c bucketName keyPrefix limit dir files objects

def segmentText : Comp Name → Str
  | .up => dotdot
  | .name n => fsdecode n.bytes

def listBody (c : Client) (bucketName keyPrefix : Str) (limit : Int) (bucket top : List (Comp Name))
    (files : List Name) (objects : List (ObjectInfo F)) : Io (List (ObjectInfo F) × Bool) := do
  let dir := (top.drop bucket.length).map segmentText
  let objects ← listFiles c bucketName keyPrefix limit dir files objects
  pure (objects, decide (limit ≤ objects.length))

/-- The walk visits each directory once, so the number of nodes bounds it. -/
def walkBucket [ScanOrder Name Bytes] (c : Client) (bucketName keyPrefix : Str) (limit : Int)
    (bucket : List (Comp Name)) : Io (List (ObjectInfo F)) := fun t =>
  FileM.walk (listBody c bucketName keyPrefix limit bucket) (t.nodes.size + 1) [bucket] [] t

def listObjects [ScanOrder Name Bytes] (c : Client) (bucketName keyPrefix : Str) (limit : Int) :
    Io (List (ObjectInfo F)) :=
  FileM.handle (do
    let bucketPath := getBucketPath c bucketName
    if !(← pathExists bucketPath) then pure []
    else onPath bucketPath (walkBucket c bucketName keyPrefix limit)) fun _ => pure []

/-! ## Copy and move -/

def copyObject (c : Client) (sourceBucket sourceKey destBucket destKey : Str) (now : DateTime.Instant) :
    Io (Option Str) :=
  handleError do
    match ← getObject c sourceBucket sourceKey with
    | none => pure none
    | some data => do
      let info : Option (ObjectInfo F) ← getObjectInfo c sourceBucket sourceKey
      match info with
      | some info => putObject c destBucket destKey data info.contentType info.metadata now
      | none => putObject c destBucket destKey data (.null : Json F) (.obj []) now

def moveObject (c : Client) (sourceBucket sourceKey destBucket destKey : Str) (now : DateTime.Instant) :
    Io (Option Str) :=
  handleError do
    let etag ← copyObject (F := F) c sourceBucket sourceKey destBucket destKey now
    match etag with
    | some (x :: xs) => do
      let _ ← deleteObject c sourceBucket sourceKey
      pure (some (x :: xs))
    | etag => pure etag

end Operations

end IsaCloud.Storage
