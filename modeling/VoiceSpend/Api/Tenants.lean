import VoiceSpend.Api.Requests
import VoiceSpend.Sync.Replicas
import VoiceSpend.Webhooks.Answers

/-!
# No request reaches the rows of another identity

From the header to the tables, with any number of overlapping requests whose endpoints are whole transactions:
whoever writes an expense or a counter, or is given a page, has presented a token that PyJWT verified for the
subject of the user that owns the rows. Who cannot be verified is refused and has no effect at all. Endpoints
whose statements overlap can break this, by the race of two users for the id of a new expense.
-/

namespace VoiceSpend

open Machine

/-- The request came with a token that was verified for the identity. -/
def Authenticated (lib : TokenLibrary) (auth : AuthSettings) (trace : List (Api × ApiAction)) (r : ℕ)
    (identity : AuthUser) : Prop :=
  ∃ before call authorization now, (before, .receive r call authorization now) ∈ trace ∧
    getCurrentUser lib auth authorization now = .ok identity

/-- The user is the one of the identity's subject. -/
def Api.Owns (s : Api) (identity : AuthUser) (user : UUID) : Prop :=
  ∃ account, s.accounts.users.lookup user = some account ∧ account.authProviderId = some identity.id

/-- The identity that a call of `get_current_db_user` works for. -/
def Call.identity : Call → Option AuthUser
  | .idle => none
  | .running identity _ | .returned identity _ _ | .raised identity => some identity

/-- What holds after a run of requests that began with some rows of `users`. -/
structure TenantsIsolated (lib : TokenLibrary) (auth : AuthSettings) (rt : Runtime) (settings : Settings)
    (users : AccountTable) (trace : List (Api × ApiAction)) (s : Api) : Prop where
  oneUser : ∀ identity first second, s.Owns identity first → s.Owns identity second → first = second
  accountsKept : ∀ entry ∈ trace, ∀ user account, entry.1.accounts.users.lookup user = some account →
    s.accounts.users.lookup user = some account
  provisioned : ∀ user account, s.accounts.users.lookup user = some account →
    users.lookup user = some account ∨
    ∃ r identity, Authenticated lib auth trace r identity ∧ account = identity.account
  /-- Whoever wrote an expense at any time is the identity that owns it in the end. -/
  expenses : ∀ before action after, (before, action) ∈ trace →
    Api.step lib auth rt settings before action = some after → ∀ id,
      (after.db.expenses.lookup id).map Expense.pushed ≠ (before.db.expenses.lookup id).map Expense.pushed →
        ∃ r now clock identity row, action = .serve r now clock ∧ Authenticated lib auth trace r identity ∧
          s.db.expenses.lookup id = some row ∧ s.Owns identity row.userId
  counters : ∀ before action after, (before, action) ∈ trace →
    Api.step lib auth rt settings before action = some after → ∀ user period,
      after.db.usageCounters.lookup (user, period) ≠ before.db.usageCounters.lookup (user, period) →
        ∃ r now clock identity, action = .serve r now clock ∧ Authenticated lib auth trace r identity ∧
          s.Owns identity user
  entitlements : ∀ before action after, (before, action) ∈ trace →
    Api.step lib auth rt settings before action = some after → ∀ user,
      after.db.entitlements.lookup user ≠ before.db.entitlements.lookup user → ∃ event now,
        action = .webhook (some settings.revenuecatWebhookAuth) event now ∧
          settings.revenuecatWebhookAuth ≠ "" ∧ mappedUser rt before.db.users event = some user
  pulled : ∀ r response, s.requests r = .answered (.pulled response) → ∃ identity user,
    Authenticated lib auth trace r identity ∧ s.Owns identity user ∧
      ∀ record ∈ response.records, record.2.userId = user
  /-- No table changes, and no later step answers the request. -/
  refused : ∀ before r call authorization now after,
    (before, .receive r call authorization now) ∈ trace →
    Api.step lib auth rt settings before (.receive r call authorization now) = some after →
    (∀ identity, getCurrentUser lib auth authorization now ≠ .ok identity) → ∃ answer,
      after = before.answer r answer ∧ s.requests r = .answered answer ∧
        (answer = .serverError ∨ ∃ error, answer = .refused error ∧ error.statusCode = 401)

section

variable {lib : TokenLibrary} {auth : AuthSettings} {rt : Runtime} {settings : Settings} {s s' : Api}
  {action : ApiAction} {trace : List (Api × ApiAction)} {identity : AuthUser} {user : UUID} {r : ℕ}
  {accounts accounts' : Accounts} {newId : UUID}

/-! ## Provisioning, whatever the emails -/

/-- What one step of provisioning does for one call. -/
structure Accounts.Works (accounts : Accounts) (c : ℕ) (identity : AuthUser) (accounts' : Accounts) :
    Prop where
  users : accounts'.users = accounts.users ∨ ∃ newId, violates accounts.users newId identity.account = false ∧
    accounts'.users = accounts.users.insert newId identity.account
  identity : (accounts'.calls c).identity = some identity
  own : ∀ other id account, accounts'.calls c = .returned other id account →
    accounts'.users.lookup id = some account ∧ account.authProviderId = some other.id
  others : ∀ d, d ≠ c → accounts'.calls d = accounts.calls d

/-- A call that goes on, or raises. -/
theorem Accounts.Works.setCall {c : ℕ} {call : Call} (hcall : call.identity = some identity)
    (hopen : ∀ other id account, call ≠ .returned other id account) :
    accounts.Works c identity (accounts.setCall c call) := by
  refine ⟨.inl rfl, ?_, fun other id account hreturned ↦ ?_, fun d hne ↦ Accounts.setCall_of_ne _ hne _⟩
  · rw [Accounts.setCall_self]
    exact hcall
  · rw [Accounts.setCall_self] at hreturned
    exact absurd hreturned (hopen other id account)

theorem Accounts.Works.found {c : ℕ} {row : UUID × Account}
    (hrow : row ∈ selectBySub accounts.users identity.id) :
    accounts.Works c identity (accounts.setCall c (.returned identity row.1 row.2)) := by
  refine ⟨.inl rfl, ?_, fun other id account hreturned ↦ ?_, fun d hne ↦ Accounts.setCall_of_ne _ hne _⟩
  · rw [Accounts.setCall_self]
    rfl
  · rw [Accounts.setCall_self] at hreturned
    cases hreturned
    exact mem_selectBySub.mp hrow

theorem Accounts.statement_works (accounts : Accounts) (c : ℕ) (newId : UUID) (identity : AuthUser)
    (stage : ProvisionStage) : accounts.Works c identity (accounts.statement c newId identity stage) := by
  cases stage with
  | selecting =>
    simp only [Accounts.statement]
    split
    · exact .setCall rfl (by simp)
    · split
      · exact .setCall rfl (by simp)
      · rename_i row hrow
        exact .found (hrow ▸ List.mem_cons_self)
      · exact .setCall rfl (by simp)
  | inserting =>
    simp only [Accounts.statement]
    split
    · exact .setCall rfl (by simp)
    · split
      · exact .setCall rfl (by simp)
      · rename_i haccepted
        refine ⟨.inr ⟨newId, Bool.not_eq_true _ ▸ haccepted, rfl⟩, ?_, fun other id account hreturned ↦ ?_,
          fun d hne ↦ Accounts.setCall_of_ne _ hne _⟩
        · rw [Accounts.setCall_self]
          rfl
        · rw [Accounts.setCall_self] at hreturned
          cases hreturned
          exact ⟨AList.lookup_insert _, rfl⟩
  | rollingBack => exact .setCall rfl (by simp)
  | reselecting =>
    simp only [Accounts.statement]
    split
    · rename_i row hrow
      exact .found (hrow ▸ List.mem_cons_self)
    · exact .setCall rfl (by simp)

theorem Accounts.Works.kept {c : ℕ} (h : accounts.Works c identity accounts') {account : Account}
    (hrow : accounts.users.lookup user = some account) : accounts'.users.lookup user = some account := by
  rcases h.users with hsame | ⟨newId, haccepted, hinserted⟩
  · rw [hsame]
    exact hrow
  · have hne : user ≠ newId := fun heq ↦ (violates_eq_false haccepted).1
      (heq ▸ AList.lookup_isSome.mp (by rw [hrow]; rfl))
    rw [hinserted]
    exact (AList.lookup_insert_ne hne).trans hrow

theorem Accounts.Works.unique {c : ℕ} (h : accounts.Works c identity accounts')
    (hunique : UniqueAccounts accounts.users) : UniqueAccounts accounts'.users := by
  rcases h.users with hsame | ⟨newId, haccepted, hinserted⟩
  · rw [hsame]
    exact hunique
  · rw [hinserted]
    exact hunique.insert haccepted

theorem Accounts.Works.new_or_old {c : ℕ} (h : accounts.Works c identity accounts') {account : Account}
    (hrow : accounts'.users.lookup user = some account) :
    accounts.users.lookup user = some account ∨ account = identity.account := by
  rcases h.users with hsame | ⟨newId, haccepted, hinserted⟩
  · exact .inl (hsame ▸ hrow)
  · rw [hinserted, Table.lookup_insert_eq] at hrow
    split at hrow
    · cases hrow
      exact .inr rfl
    · exact .inl hrow

/-! ## The endpoints -/

theorem pushSync_owner {db after : Db} {batch : List RawRecord} {now clock : Instant}
    {response : SyncPushResponse}
    (h : pushSync rt settings db user batch now clock = some (after, response)) (id : UUID) :
    after.expenses.lookup id = db.expenses.lookup id ∨
      ∃ row, after.expenses.lookup id = some row ∧ row.userId = user := by
  obtain ⟨returned, hspec⟩ := pushSync_spec h
  cases hselected : selected db user (batch.map (classify rt)) id with
  | none => exact .inl (hspec.untouched id hselected).1
  | some record =>
    obtain ⟨columns, _, houtcome⟩ := hspec.written id record hselected
    obtain ⟨_, _, hnew, _⟩ | ⟨old, _, hold, _, hnew, _⟩ | ⟨old, hold, _, hnew, _⟩ := houtcome.cases_eq
    · exact .inr ⟨_, hnew, rfl⟩
    · have howner := owner_of_selected hselected hold
      exact .inr ⟨_, hnew, howner⟩
    · exact .inl (hnew.trans hold.symm)

theorem pushSync_counters {db after : Db} {batch : List RawRecord} {now clock : Instant}
    {response : SyncPushResponse} (h : pushSync rt settings db user batch now clock = some (after, response))
    {other : UUID} (hne : other ≠ user) (period : Period) :
    after.usageCounters.lookup (other, period) = db.usageCounters.lookup (other, period) := by
  obtain ⟨returned, hspec⟩ := pushSync_spec h
  have hcounted := hspec.counted
  unfold incrementUsage at hcounted
  split at hcounted
  · rw [← Option.some.inj hcounted]
  · obtain ⟨counter, _, heq⟩ := Option.map_eq_some_iff.mp hcounted
    have hkey : (other, period) ≠ (user, currentPeriod clock) := fun heq ↦ hne (Prod.mk.inj heq).1
    rw [← heq]
    exact AList.lookup_insert_ne hkey

/-- A delivery that changes an entitlement has the secret, which is not blank, and is about that user. -/
theorem revenuecatWebhook_entitlement {db after : Billing} {authorization : Option String}
    {event : RevenueCatEvent} {now : Instant} {response : WebhookResponse}
    (h : revenuecatWebhook rt settings db authorization event now = some (after, response))
    (hchanged : after.entitlements.lookup user ≠ db.entitlements.lookup user) :
    settings.revenuecatWebhookAuth ≠ "" ∧ authorization = some settings.revenuecatWebhookAuth ∧
      mappedUser rt db.users event = some user := by
  obtain ⟨authorized, hverified, hhandled⟩ := Option.bind_eq_some_iff.mp h
  cases authorized with
  | false =>
    cases hhandled
    exact absurd rfl hchanged
  | true =>
    obtain ⟨hsecret, hauthorization, _⟩ := verifyAuth_eq_some_true_iff.mp hverified
    refine ⟨hsecret, hauthorization, ?_⟩
    cases handleEvent_outcome hhandled with
    | duplicate | ignored => exact absurd rfl hchanged
    | applied other change fresh fits mapped change_eq current =>
      by_cases hother : user = other
      · exact hother ▸ mapped
      · exact absurd (AList.lookup_insert_ne hother) hchanged

/-- What an endpoint does with its user. -/
structure Api.Serves (s : Api) (r : ℕ) (user : UUID) (s' : Api) : Prop where
  accounts : s'.accounts = s.accounts
  entitlements : s'.db.entitlements = s.db.entitlements
  expenses : ∀ id, s'.db.expenses.lookup id = s.db.expenses.lookup id ∨
    ∃ row, s'.db.expenses.lookup id = some row ∧ row.userId = user
  continues : ∀ id row, s.db.expenses.lookup id = some row →
    ∃ later, s'.db.expenses.lookup id = some later ∧ row.Continues later
  counters : ∀ other, other ≠ user → ∀ period,
    s'.db.usageCounters.lookup (other, period) = s.db.usageCounters.lookup (other, period)
  answer : ∃ answer, s'.requests = Function.update s.requests r (.answered answer) ∧
    ∀ response, answer = .pulled response → ∀ record ∈ response.records, record.2.userId = user

theorem Api.Serves.answer_only (s : Api) (r : ℕ) (user : UUID) (answer : ApiAnswer)
    (hpulled : ∀ response, answer = .pulled response → ∀ record ∈ response.records, record.2.userId = user) :
    s.Serves r user (s.answer r answer) :=
  ⟨rfl, rfl, fun _ ↦ .inl rfl, fun _ row hrow ↦ ⟨row, hrow, .refl row⟩, fun _ _ _ ↦ rfl, answer, rfl, hpulled⟩

theorem Api.endpoint_serves (s : Api) (r : ℕ) (user : UUID) (now clock : Instant) (call : ApiCall) :
    s.Serves r user (s.endpoint rt settings r user now clock call) := by
  cases call with
  | push records =>
    simp only [Api.endpoint]
    split
    · exact .answer_only s r user _ (by simp)
    · split
      · exact .answer_only s r user _ (by simp)
      · rename_i db response hpush
        obtain ⟨_, hspec⟩ := pushSync_spec hpush
        exact ⟨rfl, hspec.entitlements, pushSync_owner hpush, fun id row hrow ↦ pushSync_continues hpush hrow,
          fun other hne period ↦ pushSync_counters hpush hne period, _, rfl, by simp⟩
  | pull since limit =>
    simp only [Api.endpoint]
    split
    · split
      · refine .answer_only s r user _ fun response heq record hrecord ↦ ?_
        cases heq
        exact (of_mem_pullSync hrecord).2.1
      · exact .answer_only s r user _ (by simp)
    · exact .answer_only s r user _ (by simp)
  | parse => exact .answer_only s r user _ (by simp)

/-! ## One step -/

/-- Everything a step can do. -/
inductive ApiOutcome (lib : TokenLibrary) (auth : AuthSettings) (rt : Runtime) (settings : Settings)
    (s : Api) :
    ApiAction → Api → Prop
  | started (r : ℕ) (call : ApiCall) (authorization : Option String) (now : Instant) (identity : AuthUser)
      (accounts : Accounts) (idle : s.requests r = .idle)
      (verified : getCurrentUser lib auth authorization now = .ok identity)
      (works : s.accounts.Works r identity accounts) :
      ApiOutcome lib auth rt settings s (.receive r call authorization now)
        ({ s with accounts }.setRequest r (.provisioning call))
  | refused (r : ℕ) (call : ApiCall) (authorization : Option String) (now : Instant) (error : AuthError)
      (idle : s.requests r = .idle)
      (unverified : getCurrentUser lib auth authorization now = .unauthorized error) :
      ApiOutcome lib auth rt settings s (.receive r call authorization now) (s.answer r (.refused error))
  | failed (r : ℕ) (call : ApiCall) (authorization : Option String) (now : Instant)
      (idle : s.requests r = .idle) (unverified : getCurrentUser lib auth authorization now = .raised) :
      ApiOutcome lib auth rt settings s (.receive r call authorization now) (s.answer r .serverError)
  | provisioned (r : ℕ) (newId : UUID) (identity : AuthUser) (accounts : Accounts)
      (running : (s.accounts.calls r).identity = some identity)
      (works : s.accounts.Works r identity accounts) :
      ApiOutcome lib auth rt settings s (.provision r newId) (s.setAccounts accounts)
  | served (r : ℕ) (now clock : Instant) (call : ApiCall) (identity : AuthUser) (user : UUID)
    (account : Account)
      (s' : Api) (waiting : s.requests r = .provisioning call)
      (returned : s.accounts.calls r = .returned identity user account) (serves : s.Serves r user s') :
      ApiOutcome lib auth rt settings s (.serve r now clock) s'
  | unserved (r : ℕ) (now clock : Instant) (call : ApiCall) (waiting : s.requests r = .provisioning call) :
      ApiOutcome lib auth rt settings s (.serve r now clock) (s.answer r .serverError)
  | billed (authorization : Option String) (event : RevenueCatEvent) (now : Instant) (after : Billing)
      (response : WebhookResponse)
      (handled : revenuecatWebhook rt settings s.billing authorization event now = some (after, response)) :
      ApiOutcome lib auth rt settings s (.webhook authorization event now)
        { s with
          db := { s.db with entitlements := after.entitlements }
          processedWebhookEvents := after.processedWebhookEvents }
  | background (action : ApiAction) (s' : Api) (quiet : ∀ r call authorization now,
        action ≠ .receive r call authorization now)
      (same : s'.accounts = s.accounts ∧ s'.requests = s.requests ∧ s'.db.entitlements = s.db.entitlements ∧
        s'.db.usageCounters = s.db.usageCounters)
      (pushed : ∀ id, (s'.db.expenses.lookup id).map Expense.pushed =
        (s.db.expenses.lookup id).map Expense.pushed) :
      ApiOutcome lib auth rt settings s action s'

theorem Api.step_outcome (hstep : s.step lib auth rt settings action = some s') :
    ApiOutcome lib auth rt settings s action s' := by
  cases action with
  | receive r call authorization now =>
    simp only [Api.step] at hstep
    split at hstep
    · rename_i hidle
      simp only [Api.receive] at hstep
      split at hstep
      · rename_i identity hverified
        obtain ⟨accounts, haccounts, rfl⟩ := Option.map_eq_some_iff.mp hstep
        refine .started r call authorization now identity accounts hidle hverified ?_
        simp only [Accounts.step] at haccounts
        split at haccounts
        · cases haccounts
          exact .setCall rfl (by simp)
        · cases haccounts
      · rename_i error hunverified
        cases hstep
        exact .refused r call authorization now error hidle hunverified
      · rename_i hunverified
        cases hstep
        exact .failed r call authorization now hidle hunverified
    · cases hstep
  | provision r newId =>
    obtain ⟨accounts, haccounts, rfl⟩ := Option.map_eq_some_iff.mp hstep
    simp only [Accounts.step] at haccounts
    split at haccounts
    · rename_i identity stage hrunning
      cases haccounts
      exact .provisioned r newId identity _ (by rw [hrunning]; rfl) (Accounts.statement_works ..)
    · cases haccounts
  | serve r now clock =>
    simp only [Api.step] at hstep
    split at hstep
    · rename_i call identity user account hwaiting hreturned
      cases hstep
      exact .served r now clock call identity user account _ hwaiting hreturned (Api.endpoint_serves ..)
    · rename_i call _ hwaiting _
      cases hstep
      exact .unserved r now clock call hwaiting
    · cases hstep
  | webhook authorization event now =>
    obtain ⟨⟨after, response⟩, hhandled, rfl⟩ := Option.map_eq_some_iff.mp hstep
    exact .billed authorization event now after response hhandled
  | registerDevice | ingest =>
    cases hstep
    exact .background _ _ (by simp) ⟨rfl, rfl, rfl, rfl⟩ fun _ ↦ rfl
  | sweep userId limit tie now =>
    obtain ⟨⟨after, result⟩, hsweep, rfl⟩ := Option.map_eq_some_iff.mp hstep
    have hspec := recomputeAmountBase_spec hsweep
    exact .background _ _ (by simp) ⟨rfl, rfl, hspec.entitlements, hspec.usageCounters⟩
      (recomputeAmountBase_pushed hsweep)
  | nullify user now =>
    cases hstep
    exact .background _ _ (by simp) ⟨rfl, rfl, rfl, rfl⟩ (nullAmountBaseForUser_pushed s.db user now)

/-! ## What a step keeps -/

theorem ApiOutcome.accounts_kept (h : ApiOutcome lib auth rt settings s action s') {account : Account}
    (hrow : s.accounts.users.lookup user = some account) : s'.accounts.users.lookup user = some account := by
  cases h with
  | started r call authorization now identity accounts idle verified works => exact works.kept hrow
  | provisioned r newId identity accounts running works => exact works.kept hrow
  | served r now clock call identity user account _ waiting returned serves =>
    rw [serves.accounts]
    exact hrow
  | background action _ quiet same pushed =>
    rw [same.1]
    exact hrow
  | refused | failed | unserved | billed => exact hrow

theorem ApiOutcome.owns_kept (h : ApiOutcome lib auth rt settings s action s')
    (howns : s.Owns identity user) :
    s'.Owns identity user := by
  obtain ⟨account, hrow, hsub⟩ := howns
  exact ⟨account, h.accounts_kept hrow, hsub⟩

theorem ApiOutcome.unique (h : ApiOutcome lib auth rt settings s action s')
    (hunique : UniqueAccounts s.accounts.users) : UniqueAccounts s'.accounts.users := by
  cases h with
  | started r call authorization now identity accounts idle verified works => exact works.unique hunique
  | provisioned r newId identity accounts running works => exact works.unique hunique
  | served r now clock call identity user account _ waiting returned serves =>
    rw [serves.accounts]
    exact hunique
  | background action _ quiet same pushed =>
    rw [same.1]
    exact hunique
  | refused | failed | unserved | billed => exact hunique

/-- An expense keeps its owner. -/
theorem ApiOutcome.expense_kept (h : ApiOutcome lib auth rt settings s action s') {id : UUID} {row : Expense}
    (hrow : s.db.expenses.lookup id = some row) :
    ∃ later, s'.db.expenses.lookup id = some later ∧ later.userId = row.userId := by
  cases h with
  | served r now clock call identity user account _ waiting returned serves =>
    obtain ⟨later, hlater, hcontinues⟩ := serves.continues id row hrow
    exact ⟨later, hlater, hcontinues.userId⟩
  | background action _ quiet same pushed =>
    have hpushed := pushed id
    rw [hrow] at hpushed
    obtain ⟨later, hlater, heq⟩ := Option.map_eq_some_iff.mp hpushed
    injection heq with huser
    exact ⟨later, hlater, huser⟩
  | started | provisioned | refused | failed | unserved | billed => exact ⟨row, hrow, rfl⟩

/-- An answer is given once. -/
theorem ApiOutcome.answered_kept (h : ApiOutcome lib auth rt settings s action s') {answer : ApiAnswer}
    (hanswer : s.requests r = .answered answer) : s'.requests r = .answered answer := by
  have hother {c : ℕ} {proc : ApiProc} (hwas : s.requests c ≠ .answered answer) :
      Function.update s.requests c proc r = .answered answer := by
    have hne : r ≠ c := fun heq ↦ hwas (heq ▸ hanswer)
    exact (Function.update_of_ne hne ..).trans hanswer
  cases h with
  | started c call authorization now identity accounts idle verified works => exact hother (by simp [idle])
  | refused c call authorization now error idle unverified => exact hother (by simp [idle])
  | failed c call authorization now idle unverified => exact hother (by simp [idle])
  | provisioned | billed => exact hanswer
  | unserved c now clock call waiting => exact hother (by simp [waiting])
  | served c now clock call identity user account _ waiting returned serves =>
    obtain ⟨_, hrequests, _⟩ := serves.answer
    rw [hrequests]
    exact hother (by simp [waiting])
  | background action _ quiet same pushed =>
    rw [same.2.1]
    exact hanswer

/-- An expense changes in the columns of a push only by the endpoint of a returned call. -/
theorem ApiOutcome.expense_changed (h : ApiOutcome lib auth rt settings s action s') {id : UUID}
    (hchanged : (s'.db.expenses.lookup id).map Expense.pushed ≠
      (s.db.expenses.lookup id).map Expense.pushed) :
    ∃ r now clock identity account row, action = .serve r now clock ∧
      s.accounts.calls r = .returned identity row.userId account ∧ s'.db.expenses.lookup id = some row := by
  cases h with
  | served r now clock call identity user account _ waiting returned serves =>
    rcases serves.expenses id with hsame | ⟨row, hrow, rfl⟩
    · exact absurd (congrArg _ hsame) hchanged
    · exact ⟨r, now, clock, identity, account, row, rfl, returned, hrow⟩
  | background action _ quiet same pushed => exact absurd (pushed id) hchanged
  | started | provisioned | refused | failed | unserved | billed => exact absurd rfl hchanged

theorem ApiOutcome.counter_changed (h : ApiOutcome lib auth rt settings s action s') {period : Period}
    (hchanged : s'.db.usageCounters.lookup (user, period) ≠ s.db.usageCounters.lookup (user, period)) :
    ∃ r now clock identity account, action = .serve r now clock ∧
      s.accounts.calls r = .returned identity user account := by
  cases h with
  | served r now clock call identity owner account _ waiting returned serves =>
    by_cases hother : user = owner
    · exact ⟨r, now, clock, identity, account, rfl, hother ▸ returned⟩
    · exact absurd (serves.counters user hother period) hchanged
  | background action _ quiet same pushed => exact absurd (by rw [same.2.2.2]) hchanged
  | started | provisioned | refused | failed | unserved | billed => exact absurd rfl hchanged

/-- Only the webhook with its secret changes an entitlement, and only that of the event's user. -/
theorem ApiOutcome.entitlement_changed (h : ApiOutcome lib auth rt settings s action s')
    (hchanged : s'.db.entitlements.lookup user ≠ s.db.entitlements.lookup user) : ∃ event now,
      action = .webhook (some settings.revenuecatWebhookAuth) event now ∧
        settings.revenuecatWebhookAuth ≠ "" ∧ mappedUser rt s.db.users event = some user := by
  cases h with
  | served r now clock call identity owner account _ waiting returned serves =>
    exact absurd (by rw [serves.entitlements]) hchanged
  | background action _ quiet same pushed => exact absurd (by rw [same.2.2.1]) hchanged
  | started | provisioned | refused | failed | unserved => exact absurd rfl hchanged
  | billed authorization event now after response handled =>
    obtain ⟨hsecret, hauthorization, hmapped⟩ := revenuecatWebhook_entitlement handled hchanged
    exact ⟨event, now, by rw [hauthorization], hsecret, hmapped⟩

/-- A request that is not verified is answered with an error, and that is all. -/
theorem ApiOutcome.unverified {call : ApiCall} {authorization : Option String} {now : Instant}
    (h : ApiOutcome lib auth rt settings s (.receive r call authorization now) s')
    (hunverified : ∀ identity, getCurrentUser lib auth authorization now ≠ .ok identity) :
    ∃ answer, s' = s.answer r answer ∧
      (answer = .serverError ∨ ∃ error, answer = .refused error ∧ error.statusCode = 401) := by
  cases h with
  | started _ _ _ _ identity accounts idle verified works => exact absurd verified (hunverified identity)
  | refused _ _ _ _ error idle unverified =>
    exact ⟨_, rfl, .inr ⟨error, rfl, getCurrentUser_unauthorized unverified⟩⟩
  | failed => exact ⟨_, rfl, .inl rfl⟩
  | background _ _ quiet same pushed => exact absurd rfl (quiet r call authorization now)

/-- The identity that a request works for when it takes this step. -/
def Api.WorksFor (lib : TokenLibrary) (auth : AuthSettings) (s : Api) (action : ApiAction) (r : ℕ)
    (identity : AuthUser) : Prop :=
  (s.accounts.calls r).identity = some identity ∨ ∃ call authorization now,
    action = .receive r call authorization now ∧ getCurrentUser lib auth authorization now = .ok identity

theorem ApiOutcome.calls_cases (h : ApiOutcome lib auth rt settings s action s') (r : ℕ) :
    s'.accounts.calls r = s.accounts.calls r ∨ ∃ identity, s.WorksFor lib auth action r identity ∧
      s.accounts.Works r identity s'.accounts := by
  cases h with
  | started c call authorization now identity accounts idle verified works =>
    by_cases hc : r = c
    · subst hc
      exact .inr ⟨identity, .inr ⟨call, authorization, now, rfl, verified⟩, works⟩
    · exact .inl (works.others r hc)
  | provisioned c newId identity accounts running works =>
    by_cases hc : r = c
    · subst hc
      exact .inr ⟨identity, .inl running, works⟩
    · exact .inl (works.others r hc)
  | served c now clock call identity user account _ waiting returned serves =>
    exact .inl (by rw [serves.accounts])
  | background action _ quiet same pushed => exact .inl (by rw [same.1])
  | refused | failed | unserved | billed => exact .inl rfl

theorem ApiOutcome.account_cases (h : ApiOutcome lib auth rt settings s action s') {account : Account}
    (hrow : s'.accounts.users.lookup user = some account) : s.accounts.users.lookup user = some account ∨
      ∃ r identity, s.WorksFor lib auth action r identity ∧ account = identity.account := by
  cases h with
  | started r call authorization now identity accounts idle verified works =>
    exact (works.new_or_old hrow).imp_right fun heq ↦
      ⟨r, identity, .inr ⟨call, authorization, now, rfl, verified⟩, heq⟩
  | provisioned r newId identity accounts running works =>
    exact (works.new_or_old hrow).imp_right fun heq ↦ ⟨r, identity, .inl running, heq⟩
  | served r now clock call identity user account _ waiting returned serves =>
    exact .inl (serves.accounts ▸ hrow)
  | background action _ quiet same pushed => exact .inl (same.1 ▸ hrow)
  | refused | failed | unserved | billed => exact .inl hrow

/-- A page is the answer of the endpoint, with the rows of the user that a call returned. -/
theorem ApiOutcome.pulled_cases (h : ApiOutcome lib auth rt settings s action s')
    {response : SyncPullResponse}
    (hanswer : s'.requests r = .answered (.pulled response)) : s.requests r = .answered (.pulled response) ∨
      ∃ identity user account, s.accounts.calls r = .returned identity user account ∧
        ∀ record ∈ response.records, record.2.userId = user := by
  have hother {c : ℕ} {proc : ApiProc} (hproc : proc ≠ .answered (.pulled response))
      (hupdated : Function.update s.requests c proc r = .answered (.pulled response)) :
      s.requests r = .answered (.pulled response) := by
    by_cases hc : r = c
    · subst hc
      exact absurd ((Function.update_self ..).symm.trans hupdated) hproc
    · exact (Function.update_of_ne hc ..).symm.trans hupdated
  cases h with
  | started | refused | failed | unserved => exact .inl (hother (by simp) hanswer)
  | provisioned | billed => exact .inl hanswer
  | served c now clock call identity user account _ waiting returned serves =>
    obtain ⟨answer, hrequests, hpulled⟩ := serves.answer
    rw [hrequests] at hanswer
    by_cases hc : r = c
    · subst hc
      rw [Function.update_self] at hanswer
      cases hanswer
      exact .inr ⟨identity, user, account, returned, hpulled response rfl⟩
    · exact .inl ((Function.update_of_ne hc ..).symm.trans hanswer)
  | background action _ quiet same pushed => exact .inl (same.2.1 ▸ hanswer)

/-! ## Runs -/

theorem Authenticated.mono {longer : List (Api × ApiAction)} (h : Authenticated lib auth trace r identity)
    (hsub : trace ⊆ longer) : Authenticated lib auth longer r identity := by
  obtain ⟨before, call, authorization, now, hmem, hok⟩ := h
  exact ⟨before, call, authorization, now, hsub hmem, hok⟩

/-- What every run keeps of the identities behind its calls. -/
structure ApiInvariant (lib : TokenLibrary) (auth : AuthSettings) (users : AccountTable)
    (trace : List (Api × ApiAction)) (s : Api) : Prop where
  unique : UniqueAccounts s.accounts.users
  authenticated : ∀ r identity, (s.accounts.calls r).identity = some identity →
    Authenticated lib auth trace r identity
  own : ∀ r identity user account, s.accounts.calls r = .returned identity user account →
    s.Owns identity user
  provisioned : ∀ user account, s.accounts.users.lookup user = some account →
    users.lookup user = some account ∨
    ∃ r identity, Authenticated lib auth trace r identity ∧ account = identity.account
  pulled : ∀ r response, s.requests r = .answered (.pulled response) → ∃ identity user,
    Authenticated lib auth trace r identity ∧ s.Owns identity user ∧
      ∀ record ∈ response.records, record.2.userId = user

theorem ApiInvariant.worksFor {users : AccountTable} (h : ApiInvariant lib auth users trace s)
    (hworks : s.WorksFor lib auth action r identity) :
    Authenticated lib auth (trace ++ [(s, action)]) r identity := by
  rcases hworks with hidentity | ⟨call, authorization, now, rfl, hok⟩
  · exact (h.authenticated r identity hidentity).mono (List.subset_append_left ..)
  · exact ⟨s, call, authorization, now, List.mem_append_right _ (List.mem_singleton_self _), hok⟩

theorem ApiInvariant.step {users : AccountTable} (h : ApiInvariant lib auth users trace s)
    (houtcome : ApiOutcome lib auth rt settings s action s') :
    ApiInvariant lib auth users (trace ++ [(s, action)]) s' := by
  have hmono : trace ⊆ trace ++ [(s, action)] := List.subset_append_left ..
  refine ⟨houtcome.unique h.unique, fun r identity hidentity ↦ ?_, fun r identity user account hreturned ↦ ?_,
    fun user account hrow ↦ ?_, fun r response hanswer ↦ ?_⟩
  · rcases houtcome.calls_cases r with hsame | ⟨other, hworks, hstep⟩
    · exact (h.authenticated r identity (hsame ▸ hidentity)).mono hmono
    · cases hstep.identity.symm.trans hidentity
      exact h.worksFor hworks
  · rcases houtcome.calls_cases r with hsame | ⟨other, hworks, hstep⟩
    · exact houtcome.owns_kept (h.own r identity user account (hsame ▸ hreturned))
    · exact ⟨account, hstep.own identity user account hreturned⟩
  · rcases houtcome.account_cases hrow with hold | ⟨r, identity, hworks, heq⟩
    · rcases h.provisioned user account hold with hstart | ⟨r, identity, hauthenticated, heq⟩
      · exact .inl hstart
      · exact .inr ⟨r, identity, hauthenticated.mono hmono, heq⟩
    · exact .inr ⟨r, identity, h.worksFor hworks, heq⟩
  · rcases houtcome.pulled_cases hanswer with hold | ⟨identity, user, account, hreturned, hrecords⟩
    · obtain ⟨identity, user, hauthenticated, howns, hrecords⟩ := h.pulled r response hold
      exact ⟨identity, user, hauthenticated.mono hmono, houtcome.owns_kept howns, hrecords⟩
    · have hidentity : (s.accounts.calls r).identity = some identity := by rw [hreturned]; rfl
      exact ⟨identity, user, (h.authenticated r identity hidentity).mono hmono,
        houtcome.owns_kept (h.own r identity user account hreturned), hrecords⟩

theorem apiInvariant {users : AccountTable} {db : Db} {fxRates : FxTable}
    {processed : Table Text ProcessedWebhookEvent} (hunique : UniqueAccounts users)
    (hrun : Run (Api.step lib auth rt settings) (fun _ _ ↦ True)
      (.ofTables users db fxRates processed) trace s) :
    ApiInvariant lib auth users trace s := by
  apply hrun.trace_invariant (ApiInvariant lib auth users)
  · exact ⟨hunique, nofun, nofun, fun _ _ hrow ↦ .inl hrow, nofun⟩
  · intro trace s action s' hinv _ hstep
    exact hinv.step (Api.step_outcome hstep)

/-- With any number of overlapping requests, each endpoint a whole transaction, an identity has one user; an
expense or a counter is written, and a page is read, by a request whose token was verified for the subject of
the user that owns the rows; and a request that is not verified changes nothing. -/
theorem tenants_isolated {users : AccountTable} {db : Db} {fxRates : FxTable}
    {processed : Table Text ProcessedWebhookEvent} (hunique : UniqueAccounts users)
    (hrun : Run (Api.step lib auth rt settings) (fun _ _ ↦ True)
      (.ofTables users db fxRates processed) trace s) :
    TenantsIsolated lib auth rt settings users trace s := by
  have hinv := apiInvariant hunique hrun
  have howns {identity : AuthUser} {user : UUID} {middle after : Api} {action : ApiAction}
      (hmem : (middle, action) ∈ trace) (hstep : middle.step lib auth rt settings action = some after)
      (hmiddle : middle.Owns identity user) : s.Owns identity user :=
    hrun.kept_after (P := fun s ↦ s.Owns identity user)
      (fun _ _ _ hs _ hstep ↦ (Api.step_outcome hstep).owns_kept hs)
      hmem hstep ((Api.step_outcome hstep).owns_kept hmiddle)
  have hcalled {middle : Api} {action : ApiAction} (hmem : (middle, action) ∈ trace) {r : ℕ}
    {identity : AuthUser}
      {user : UUID} {account : Account}
        (hreturned : middle.accounts.calls r = .returned identity user account) :
      Authenticated lib auth trace r identity ∧ middle.Owns identity user := by
    obtain ⟨earlier, later, rfl⟩ := List.append_of_mem hmem
    have hmiddle := apiInvariant hunique (hrun.before rfl).1
    have hidentity : (middle.accounts.calls r).identity = some identity := by rw [hreturned]; rfl
    exact ⟨(hmiddle.authenticated r identity hidentity).mono (List.subset_append_left ..),
      hmiddle.own r identity user account hreturned⟩
  constructor
  · rintro identity first second ⟨account, hrow, hsub⟩ ⟨account', hrow', hsub'⟩
    exact hinv.unique.sub first second account account' identity.id hrow hrow' hsub hsub'
  · intro entry hmem user account hrow
    obtain ⟨after, hstep⟩ := hrun.step_of_mem hmem
    exact hrun.kept_after (P := fun s ↦ s.accounts.users.lookup user = some account)
      (fun _ _ _ hs _ hstep ↦ (Api.step_outcome hstep).accounts_kept hs) hmem hstep
      ((Api.step_outcome hstep).accounts_kept hrow)
  · exact hinv.provisioned
  · intro before action after hmem hstep id hchanged
    obtain ⟨r, now, clock, identity, account, row, rfl, hreturned, hrow⟩ :=
      (Api.step_outcome hstep).expense_changed hchanged
    obtain ⟨hauthenticated, hbefore⟩ := hcalled hmem hreturned
    obtain ⟨later, hlater, hsame⟩ := hrun.kept_after
      (P := fun s ↦ ∃ later, s.db.expenses.lookup id = some later ∧ later.userId = row.userId)
      (fun _ _ _ ⟨later, hlater, hsame⟩ _ hstep ↦
        ((Api.step_outcome hstep).expense_kept hlater).imp fun _ hnext ↦ ⟨hnext.1, hnext.2.trans hsame⟩)
      hmem hstep ⟨row, hrow, rfl⟩
    exact ⟨r, now, clock, identity, later, rfl, hauthenticated, hlater, hsame ▸ howns hmem hstep hbefore⟩
  · intro before action after hmem hstep user period hchanged
    obtain ⟨r, now, clock, identity, account, rfl, hreturned⟩ :=
      (Api.step_outcome hstep).counter_changed hchanged
    obtain ⟨hauthenticated, hbefore⟩ := hcalled hmem hreturned
    exact ⟨r, now, clock, identity, rfl, hauthenticated, howns hmem hstep hbefore⟩
  · intro before action after hmem hstep user hchanged
    exact (Api.step_outcome hstep).entitlement_changed hchanged
  · exact hinv.pulled
  · intro before r call authorization now after hmem hstep hunverified
    obtain ⟨answer, rfl, hanswer⟩ := (Api.step_outcome hstep).unverified hunverified
    refine ⟨answer, rfl, ?_, hanswer⟩
    exact hrun.kept_after (P := fun s ↦ s.requests r = .answered answer)
      (fun _ _ _ hs _ hstep ↦ (Api.step_outcome hstep).answered_kept hs) hmem hstep (Function.update_self ..)

end

/-- A library that takes the tokens of two subjects. -/
def sampleTokens : TokenLibrary where
  bearer := fun authorization ↦ authorization.map fun text ↦ String.ofList (text.toList.drop 7)
  signingKey := fun _ _ ↦ .pyJwtError "no key"
  decode := fun token _ _ _ _ _ ↦
    if token = "token-a" then .ok (AList.singleton "sub" (.str "a"))
    else if token = "token-b" then .ok (AList.singleton "sub" (.str "b"))
    else .pyJwtError "Signature verification failed"

/-- A push, a pull of another subject and a forged token, while both subjects are new. -/
theorem tenants_isolated_sample : ∃ trace s,
    TenantsIsolated sampleTokens ⟨"https://x", "key", "", "authenticated", ""⟩ .ascii sampleSettings ∅
      trace s ∧
      (s.db.expenses.lookup ⟨3⟩).map (·.userId) = some ⟨1⟩ ∧ s.accounts.users.keys = [⟨9⟩, ⟨1⟩] := by
  let step := Api.step sampleTokens ⟨"https://x", "key", "", "authenticated", ""⟩ .ascii sampleSettings
  let start := Api.ofTables ∅ sampleDb ∅ ∅
  let actions : List ApiAction := [.receive 0 (.push [sampleExpense 5 1]) (some "Bearer token-a") 0,
    .receive 1 (.pull 0 10) (some "Bearer token-b") 0, .provision 0 ⟨1⟩, .provision 1 ⟨9⟩, .provision 0 ⟨1⟩,
    .receive 2 (.push [sampleExpense 6 2]) (some "Bearer forged") 1, .serve 0 1 1, .provision 1 ⟨9⟩,
      .serve 1 2 2]
  have hexec : (exec step start actions).map (fun s ↦
      ((s.db.expenses.lookup ⟨3⟩).map (·.userId), s.accounts.users.keys)) =
        some (some ⟨1⟩, [⟨9⟩, ⟨1⟩]) := by decide +kernel
  obtain ⟨s, hs, hfacts⟩ := Option.map_eq_some_iff.mp hexec
  obtain ⟨howner, hkeys⟩ := Prod.mk.inj hfacts
  have hnone {id : UUID} {row : Account} : (∅ : AccountTable).lookup id ≠ some row := by
    rw [AList.lookup_empty]
    exact (Option.some_ne_none row).symm
  have hunique : UniqueAccounts ∅ :=
    ⟨fun _ _ _ _ _ hrow ↦ absurd hrow hnone, fun _ _ _ _ _ hrow ↦ absurd hrow hnone⟩
  exact ⟨_, s, tenants_isolated hunique (run_of_exec hs), howner, hkeys⟩

end VoiceSpend
