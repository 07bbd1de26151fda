import IsaCloud.Gateway.Routes
import Mathlib.Data.List.Infix

/-!
# The route sync script

`main` of `sync_routes.sh`, which runs under `set -e`. A PUT in the condition of
an `if` or behind `local` does not end the script when it fails; the other ones
do. The reply to every `curl` is given. `create_or_update_route` fetches the
metadata once more and does not read it: that call is left out, and so are the
log lines and the last count of routes.
-/

namespace IsaCloud.Gateway

set_option autoImplicit false

open Support Support.Text

/-! ## Words of a listing -/

/-- The lines in which `jq -r` prints the strings. -/
def printed (names : List Str) : List Str := names.flatMap fun n => n.splitOnP fun c => c == 10

def isBlank (c : CodePoint) : Bool := c == 32 || c == 9

def fields (line : Str) : List Str := (line.splitOnP isBlank).filter fun w => decide (w ≠ [])

/-- The pathname expansion of a word. -/
structure Shell where
  glob : Str → List Str
  glob_plain : ∀ w, (∀ c ∈ w, c ∉ lit "*?[\\") → glob w = [w]

/-- The words a `for` loop takes from the lines of an unquoted variable. -/
def Shell.words (sh : Shell) (lines : List Str) : List Str := (lines.flatMap fields).flatMap sh.glob

def consulWord : Str := lit "consul"

/-- `jq -r 'keys[]' | grep -v consul`. -/
def serviceLines (names : List Str) : List Str := (printed names).filter fun l => !decide (consulWord <:+: l)

/-- `jq -r '.list[]?.value.name' | grep '_route$'`. -/
def routeLines (names : List Str) : List Str := (printed names).filter fun l => decide (routeSuffix <:+ l)

/-! ## Metadata -/

/-- `ServiceMeta` of the first instance; `{}` when there is none. -/
abbrev Meta := Dict Str Str

/-- `$(…)` drops the line feeds at the end. -/
def substitution (s : Str) : Str := (s.reverse.dropWhile fun c => c == 10).reverse

/-- `.api_path // .base_path // empty`. -/
def pathText (m : Meta) : Str := substitution (((m.get (lit "api_path")).or (m.get (lit "base_path"))).getD [])

/-- Nothing for an empty path and for `null`. -/
def apiPath (m : Meta) : Option Str :=
  if pathText m = [] ∨ pathText m = lit "null" then none else some (pathText m)

def authRequired (m : Meta) : Str := substitution ((m.get (lit "auth_required")).getD (lit "false"))

def rateLimit (m : Meta) : Str := substitution ((m.get (lit "rate_limit")).getD (lit "100"))

/-! ## Replies -/

/-- What became of a PUT: `synced` is status 200 or 201, `curlFailed` an exit status of `curl`. -/
structure PutReply where
  synced : Bool
  curlFailed : Bool
  written : Bool
  written_of_synced : synced = true → written = true

structure DeleteReply where
  curlFailed : Bool
  removed : Bool

/-- The replies in one iteration; `none` is a failing or empty reply. -/
structure WordReplies where
  info : Option Meta
  main : PutReply
  mlflow : PutReply
  health : PutReply

/-- The replies to one run of the script, except to its DELETEs. -/
structure Replies where
  services : Option (List Str)
  /-- In the n-th iteration, which is about the word. -/
  word : Nat → Str → WordReplies
  static : Static → PutReply
  listing : Bool

/-! ## The loop over the services -/

abbrev Routes := Dict Str Stored

structure Attempt where
  reply : PutReply
  request : Request

/-- The PUTs of one iteration. -/
def serviceAttempts (env : Settings) (serviceName : Str) (r : WordReplies) : List Attempt :=
  match r.info with
  | none => []
  | some m =>
    match apiPath m with
    | none => []
    | some path =>
      [⟨r.main, createOrUpdateRoute env serviceName path (authRequired m) (rateLimit m)⟩] ++
      (if serviceName = modelService then [⟨r.mlflow, createOrUpdateModelMlflowRoute env⟩] else []) ++
      [⟨r.health, createOrUpdateHealthRoute env serviceName path⟩]

def loopAttempts (env : Settings) (word : Nat → Str → WordReplies) : Nat → List Str → List Attempt
  | _, [] => []
  | n, w :: ws => serviceAttempts env w (word n w) ++ loopAttempts env word (n + 1) ws

structure SyncState where
  routes : Routes
  processed : List Str

section Api
variable (a : Apisix)

def put (at' : Attempt) (routes : Routes) : Routes :=
  if at'.reply.written then routes.set (a.target at'.request.name) (a.kept at'.request) else routes

/-- A PUT in the condition of an `if`, whose success adds the name to `processed_services`. -/
def syncOne (st : SyncState) (at' : Attempt) : SyncState where
  routes := put a at' st.routes
  processed := if at'.reply.synced then st.processed ++ [at'.request.name] else st.processed

/-! ## The static routes -/

/-- Whether the script ends at the reply: the frontend routes return 1, and for some of the others
the exit status of `curl` counts. -/
def Static.ends (s : Static) (reply : PutReply) : Bool :=
  match s with
  | .mate => !reply.synced
  | .app => !reply.synced
  | .console => !reply.synced
  | .docs => !reply.synced
  | .loginCookie => false
  | .refreshCookie => reply.curlFailed
  | .verifyCookie => reply.curlFailed
  | .protectedResource => false
  | .authorizationServer => reply.curlFailed

/-- The static routes, and whether the script goes on. Their names are kept in any case. -/
def syncStatics (env : Settings) (reply : Static → PutReply) : List Static → SyncState → SyncState × Bool
  | [], st => (st, true)
  | s :: rest, st =>
    let st' : SyncState := ⟨put a ⟨reply s, s.request env⟩ st.routes, st.processed ++ [routeName s.base]⟩
    if s.ends (reply s) then (st', false) else syncStatics env reply rest st'

/-! ## The clean-up -/

structure Cleanup where
  routes : Routes
  /-- The names DELETEs were sent for. -/
  sent : List Str

/-- A DELETE that `curl` fails on ends the script. -/
def deleteStale (delete : Nat → DeleteReply) (processed : List Str) : Nat → List Str → Routes → Cleanup
  | _, [], routes => ⟨routes, []⟩
  | n, w :: ws, routes =>
    if w ∈ processed then deleteStale delete processed n ws routes
    else
      let routes' := if (delete n).removed then routes.pop (a.target w) else routes
      if (delete n).curlFailed then ⟨routes', [w]⟩
      else { deleteStale delete processed (n + 1) ws routes' with
        sent := w :: (deleteStale delete processed (n + 1) ws routes').sent }

def storedNames (routes : Routes) : List Str := routes.entries.map fun e => e.2.name

/-- The words of the clean-up's listing. -/
def listed (sh : Shell) (routes : Routes) : List Str := sh.words (routeLines (storedNames routes))

/-- `main`. -/
def main (sh : Shell) (env : Settings) (replies : Replies) (delete : Nat → DeleteReply) (prior : Routes) : Cleanup :=
  match replies.services with
  | none => ⟨prior, []⟩
  | some names =>
    let lines := serviceLines names
    if lines.all (fun l => decide (l = [])) then ⟨prior, []⟩
    else
      let st := (loopAttempts env replies.word 0 (sh.words lines)).foldl (syncOne a) ⟨prior, []⟩
      match syncStatics a env replies.static statics st with
      | (st, false) => ⟨st.routes, []⟩
      | (st, true) =>
        if replies.listing then deleteStale a delete st.processed 0 (listed sh st.routes) st.routes
        else ⟨st.routes, []⟩

end Api

/-! ## What the loops leave -/

section Loops
variable (a : Apisix)

/-- The entry a PUT writes, if it does. -/
def Attempt.entry (at' : Attempt) : Option (Str × Stored) :=
  if at'.reply.written then some (a.target at'.request.name, a.kept at'.request) else none

theorem put_eq (at' : Attempt) (routes : Routes) : put a at' routes = routes.putAll (at'.entry a).toList := by
  rw [put, Attempt.entry]
  cases at'.reply.written with
  | true => rfl
  | false => rfl

def syncedNames (ats : List Attempt) : List Str := (ats.filter fun x => x.reply.synced).map fun x => x.request.name

theorem foldl_syncOne (ats : List Attempt) (st : SyncState) :
    ats.foldl (syncOne a) st =
      ⟨st.routes.putAll (ats.filterMap (Attempt.entry a)), st.processed ++ syncedNames ats⟩ := by
  induction ats generalizing st with
  | nil => simp [syncedNames]
  | cons x ats ih =>
    rw [List.foldl_cons, ih, syncOne]
    have hroutes : (put a x st.routes).putAll (ats.filterMap (Attempt.entry a)) =
        st.routes.putAll ((x :: ats).filterMap (Attempt.entry a)) := by
      rw [put_eq, ← Dict.putAll_append, List.filterMap_cons]
      cases x.entry a with
      | none => rfl
      | some e => rfl
    dsimp only
    rw [hroutes]
    congr 1
    rw [syncedNames, syncedNames, List.filter_cons]
    cases x.reply.synced with
    | true => exact List.append_assoc ..
    | false => rfl

def staticAttempts (env : Settings) (reply : Static → PutReply) (l : List Static) : List Attempt :=
  l.map fun s => ⟨reply s, s.request env⟩

theorem syncStatics_of_goes_on {env : Settings} {reply : Static → PutReply} {l : List Static}
    (h : ∀ s ∈ l, s.ends (reply s) = false) (st : SyncState) :
    syncStatics a env reply l st =
      (⟨st.routes.putAll ((staticAttempts env reply l).filterMap (Attempt.entry a)),
        st.processed ++ l.map fun s => routeName s.base⟩, true) := by
  induction l generalizing st with
  | nil => simp [syncStatics, staticAttempts]
  | cons s l ih =>
    rw [syncStatics, h s (List.mem_cons_self ..), if_neg Bool.false_ne_true, ih fun s' hs' => h s' (List.mem_cons_of_mem _ hs'), put_eq,
      ← Dict.putAll_append, staticAttempts, staticAttempts, List.map_cons, List.filterMap_cons]
    congr 1
    congr 1
    · cases Attempt.entry a ⟨reply s, s.request env⟩ with
      | none => rfl
      | some e => rfl
    · exact List.append_assoc ..

theorem syncStatics_of_ends (env : Settings) {reply : Static → PutReply} {l : List Static}
    (h : ¬ ∀ s ∈ l, s.ends (reply s) = false) (st : SyncState) : (syncStatics a env reply l st).2 = false := by
  induction l generalizing st with
  | nil => exact absurd (fun _ hs => (nomatch hs)) h
  | cons s l ih =>
    rw [syncStatics]
    cases hs : s.ends (reply s) with
    | true => rfl
    | false =>
      rw [if_neg Bool.false_ne_true]
      apply ih
      intro hl
      apply h
      intro s' hs'
      rcases List.mem_cons.mp hs' with rfl | hs'
      · exact hs
      · exact hl s' hs'

theorem mem_sent {delete : Nat → DeleteReply} {processed ws : List Str} {n : Nat} {routes : Routes} {w : Str}
    (h : w ∈ (deleteStale a delete processed n ws routes).sent) : w ∈ ws ∧ w ∉ processed := by
  induction ws generalizing n routes with
  | nil => cases h
  | cons x ws ih =>
    rw [deleteStale] at h
    split at h
    · exact ⟨List.mem_cons_of_mem _ (ih h).1, (ih h).2⟩
    · rename_i hx
      have hcons : w = x ∨ w ∈ ws ∧ w ∉ processed := by
        dsimp only at h
        split at h
        · exact Or.inl (List.mem_singleton.mp h)
        · exact (List.mem_cons.mp h).imp_right ih
      rcases hcons with rfl | hw
      · exact ⟨List.mem_cons_self .., hx⟩
      · exact ⟨List.mem_cons_of_mem _ hw.1, hw.2⟩

/-- With DELETEs that all succeed, every stale word is sent and its route is gone. -/
theorem deleteStale_all {delete : Nat → DeleteReply} (hd : ∀ n, (delete n).curlFailed = false ∧ (delete n).removed = true)
    (processed ws : List Str) (n : Nat) (routes : Routes) :
    deleteStale a delete processed n ws routes =
      ⟨routes.dropAll ((ws.filter fun w => decide (w ∉ processed)).map a.target),
        ws.filter fun w => decide (w ∉ processed)⟩ := by
  induction ws generalizing n routes with
  | nil => rfl
  | cons w ws ih =>
    rw [deleteStale]
    by_cases hw : w ∈ processed
    · rw [if_pos hw, ih, List.filter_cons_of_neg (by simpa using hw)]
    · rw [if_neg hw, (hd n).1, (hd n).2, if_pos rfl, if_neg Bool.false_ne_true, ih,
        List.filter_cons_of_pos (by simpa using hw)]
      rfl

end Loops

end IsaCloud.Gateway
