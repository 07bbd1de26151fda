import IsaCloud.Gateway.SyncRoutes

/-!
# Failing calls and the clean-up

The names to keep are rebuilt from what succeeded in this run, so a failing call
about a registered service makes its routes look stale. The theorem says for every
prior state and every pattern of replies when no DELETE is sent for them.
-/

namespace IsaCloud.Gateway

set_option autoImplicit false

open Support Support.Text

section Failing
variable (a : Apisix) (sh : Shell) (env : Settings)

/-- The service is in the catalog during the whole run, with a path: every answered call says so. -/
structure Registered (replies : Replies) (serviceName : Str) : Prop where
  named : ∀ names, replies.services = some names → serviceName ∈ names
  path : ∀ n m, (replies.word n serviceName).info = some m → apiPath m ≠ none

def ownNames (serviceName : Str) : List Str := [routeName serviceName, healthRouteName serviceName]

/-- Whatever becomes of the DELETEs, none is sent that addresses the main route or the health route
of a registered service. -/
def SparesRegistered (replies : Replies) (prior : Routes) : Prop :=
  ∀ delete serviceName, Registered replies serviceName → ∀ n ∈ ownNames serviceName,
    ∀ w ∈ (main a sh env replies delete prior).sent, a.target w ≠ a.target n

/-! ## The condition -/

/-- The words the loop is over. -/
def Replies.iterations (replies : Replies) : List Str := sh.words (serviceLines (replies.services.getD []))

/-- The run reaches the deletions: the catalog listed something, no static route ended the script,
and the listing was answered. -/
structure Replies.ReachesCleanup (replies : Replies) : Prop where
  named : ∃ names, replies.services = some names ∧ ¬ ∀ l ∈ serviceLines names, l = []
  goesOn : ∀ s ∈ statics, s.ends (replies.static s) = false
  answered : replies.listing = true

def Replies.attempts (replies : Replies) : List Attempt := loopAttempts env replies.word 0 (replies.iterations sh)

/-- A PUT for the name was answered with 200 or 201 in this run, or it is a static one. -/
def Replies.Keeps (replies : Replies) (n : Str) : Prop :=
  (∃ x ∈ replies.attempts sh env, x.reply.synced = true ∧ x.request.name = n) ∨ ∃ s ∈ statics, n = routeName s.base

/-- The routes when the clean-up lists them. -/
def Replies.routesListed (replies : Replies) (prior : Routes) : Routes :=
  (prior.putAll ((replies.attempts sh env).filterMap (Attempt.entry a))).putAll
    ((staticAttempts env replies.static statics).filterMap (Attempt.entry a))

variable {a sh env}

theorem mem_syncedNames {ats : List Attempt} {n : Str} :
    n ∈ syncedNames ats ↔ ∃ x ∈ ats, x.reply.synced = true ∧ x.request.name = n := by
  rw [syncedNames, List.mem_map]
  constructor
  · rintro ⟨x, hx, rfl⟩
    rw [List.mem_filter] at hx
    exact ⟨x, hx.1, hx.2, rfl⟩
  · rintro ⟨x, hx, hs, rfl⟩
    exact ⟨x, List.mem_filter.mpr ⟨hx, hs⟩, rfl⟩

theorem keeps_iff (replies : Replies) (n : Str) :
    replies.Keeps sh env n ↔ n ∈ syncedNames (replies.attempts sh env) ++ statics.map fun s => routeName s.base := by
  rw [List.mem_append, mem_syncedNames, List.mem_map, Replies.Keeps]
  apply or_congr_right
  constructor
  · rintro ⟨s, hs, rfl⟩
    exact ⟨s, hs, rfl⟩
  · rintro ⟨s, hs, rfl⟩
    exact ⟨s, hs, rfl⟩

theorem main_of_reaches {replies : Replies} (h : replies.ReachesCleanup) (delete : Nat → DeleteReply) (prior : Routes) :
    main a sh env replies delete prior =
      deleteStale a delete (syncedNames (replies.attempts sh env) ++ statics.map fun s => routeName s.base) 0
        (listed sh (replies.routesListed a sh env prior)) (replies.routesListed a sh env prior) := by
  obtain ⟨names, hnames, hlines⟩ := h.named
  have hsome : ¬ ((serviceLines names).all fun l => decide (l = [])) = true := by
    rw [List.all_eq_true]
    intro hall
    exact hlines fun l hl => of_decide_eq_true (hall l hl)
  have hits : replies.iterations sh = sh.words (serviceLines names) := by
    rw [Replies.iterations, hnames]
    rfl
  rw [main, hnames]
  dsimp only
  rw [if_neg hsome, foldl_syncOne, ← hits, syncStatics_of_goes_on a h.goesOn]
  dsimp only
  rw [if_pos h.answered, List.nil_append]
  rfl

theorem sent_of_not_reaches {replies : Replies} (h : ¬ replies.ReachesCleanup) (delete : Nat → DeleteReply)
    (prior : Routes) : (main a sh env replies delete prior).sent = [] := by
  rw [main]
  cases hnames : replies.services with
  | none => rfl
  | some names =>
    dsimp only
    split
    · rfl
    · rename_i hsome
      have hlines : ¬ ∀ l ∈ serviceLines names, l = [] := by
        intro hall
        exact hsome (List.all_eq_true.mpr fun l hl => decide_eq_true (hall l hl))
      by_cases hon : ∀ s ∈ statics, s.ends (replies.static s) = false
      · rw [syncStatics_of_goes_on a hon]
        dsimp only
        rw [if_neg fun hlisting => h ⟨⟨names, hnames, hlines⟩, hon, hlisting⟩]
      · have hends := syncStatics_of_ends a env hon
          ((loopAttempts env replies.word 0 (sh.words (serviceLines names))).foldl (syncOne a) ⟨prior, []⟩)
        generalize syncStatics a env replies.static statics
          ((loopAttempts env replies.word 0 (sh.words (serviceLines names))).foldl (syncOne a) ⟨prior, []⟩) = x at hends ⊢
        obtain ⟨st, goes⟩ := x
        cases hends
        rfl

def allRemoved : Nat → DeleteReply := fun _ => ⟨false, true⟩

/-- No DELETE is sent for a route of a registered service exactly when, in a run that reaches the
clean-up, every listed name that addresses one was kept by this run. -/
theorem spares_registered_iff (replies : Replies) (prior : Routes) :
    SparesRegistered a sh env replies prior ↔
      (replies.ReachesCleanup → ∀ serviceName, Registered replies serviceName → ∀ n ∈ ownNames serviceName,
        ∀ w ∈ listed sh (replies.routesListed a sh env prior), a.target w = a.target n → replies.Keeps sh env w) := by
  constructor
  · intro h hreach serviceName hreg n hn w hw htarget
    by_contra hkeep
    rw [keeps_iff] at hkeep
    have hsent : w ∈ (main a sh env replies allRemoved prior).sent := by
      rw [main_of_reaches hreach, deleteStale_all a (fun _ => ⟨rfl, rfl⟩), List.mem_filter]
      exact ⟨hw, decide_eq_true hkeep⟩
    exact h allRemoved serviceName hreg n hn w hsent htarget
  · intro h delete serviceName hreg n hn w hw htarget
    by_cases hreach : replies.ReachesCleanup
    · rw [main_of_reaches hreach] at hw
      obtain ⟨hlisted, hstale⟩ := mem_sent a hw
      exact hstale ((keeps_iff replies w).mp (h hreach serviceName hreg n hn w hlisted htarget))
    · rw [sent_of_not_reaches hreach] at hw
      cases hw

end Failing

/-! ## A failing metadata call -/

section Example

def plainShell : Shell := ⟨fun w => [w], fun _ _ => rfl⟩

/-- An API whose names are its ids. -/
def plainApisix : Apisix where
  target := id
  target_plain := fun _ _ => rfl
  isNumber := fun s => s.all isDigit
  isNumber_default := by decide
  kept := fun req => if req.clean fun s => s.all isDigit then .synced req.route else .other req.name
  kept_eq_iff := by
    intro req
    split
    · rename_i h
      exact ⟨fun _ => h, fun _ => rfl⟩
    · rename_i h
      constructor
      · intro he
        cases he
      · intro hc
        exact absurd hc h

def noSettings : Settings := ⟨[], [], [], [], [], []⟩

def answered : PutReply := ⟨true, false, true, fun _ => rfl⟩

def billingRoute : Str := lit "billing_route"

/-- The catalog lists `billing`; the call for its metadata fails and every other call succeeds. -/
def metadataFails : Replies where
  services := some [lit "billing"]
  word := fun _ _ => ⟨none, answered, answered, answered⟩
  static := fun _ => answered
  listing := true

def billingRoutes : Routes := Dict.empty.set billingRoute (.other billingRoute)

theorem failed_metadata_deletes_route :
    Registered metadataFails (lit "billing") ∧
      billingRoute ∈ (main plainApisix plainShell noSettings metadataFails allRemoved billingRoutes).sent ∧
      (main plainApisix plainShell noSettings metadataFails allRemoved billingRoutes).routes.get billingRoute = none ∧
      ¬ SparesRegistered plainApisix plainShell noSettings metadataFails billingRoutes := by
  have hreg : Registered metadataFails (lit "billing") := by
    refine ⟨?_, fun _ _ h => (nomatch h)⟩
    intro names h
    rw [← Option.some.inj h]
    exact List.mem_singleton_self _
  have hsent : billingRoute ∈ (main plainApisix plainShell noSettings metadataFails allRemoved billingRoutes).sent := by
    decide
  refine ⟨hreg, hsent, by decide, ?_⟩
  intro h
  exact h allRemoved _ hreg billingRoute (List.mem_cons_self ..) billingRoute hsent rfl

end Example

end IsaCloud.Gateway
