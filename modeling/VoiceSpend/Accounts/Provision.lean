import VoiceSpend.Library.Machine
import VoiceSpend.Library.Table
import VoiceSpend.Store.Columns

/-!
# User provisioning

Any number of `get_current_db_user` calls, one statement at a time: the `SELECT`, the `INSERT`
with its commit, the rollback after an `IntegrityError`, and the second `SELECT`. Two unique
constraints and the primary key can reject the insertion, but the handler takes every rejection
for a lost race on `auth_provider_id`.

In a run whose insertions never meet their email under another subject, a rejected call does find
a row of its own subject, because only such a row can have rejected it, and rows are never removed.
-/

namespace VoiceSpend

open Machine

/-- `AuthUser`, without the role that provisioning does not read. -/
structure AuthUser where
  id : Text
  email : Option Text
  deriving DecidableEq, Repr

/-- `users`, with the columns that provisioning writes and checks. -/
structure Account where
  authProviderId : Option Text
  email : Option Text
  isAnonymous : Bool
  baseCurrency : Text
  deriving DecidableEq, Repr

abbrev AccountTable := Table UUID Account

/-- The new row; `base_currency` takes its default. -/
def AuthUser.account (auth : AuthUser) : Account where
  authProviderId := some auth.id
  email := auth.email
  isAnonymous := auth.email.isNone
  baseCurrency := "USD"

/-- `SELECT ... WHERE auth_provider_id = :sub`. -/
def selectBySub (users : AccountTable) (sub : Text) : List (UUID × Account) :=
  (Table.rows users).filter fun row ↦ row.2.authProviderId = some sub

/-- A stored value equal to a new one that is not NULL. -/
def duplicates (stored new : Option Text) : Bool := new.isSome && stored == new

/-- `IntegrityError`: the primary key or one of the two unique columns is taken. -/
def violates (users : AccountTable) (id : UUID) (account : Account) : Bool :=
  decide (id ∈ users) || (Table.rows users).any fun row ↦
    duplicates row.2.authProviderId account.authProviderId || duplicates row.2.email account.email

/-- What a call does next. -/
inductive ProvisionStage
  | selecting
  | inserting
  | rollingBack
  | reselecting
  deriving DecidableEq, Repr

inductive Call
  | idle
  | running (auth : AuthUser) (stage : ProvisionStage)
  | returned (auth : AuthUser) (id : UUID) (user : Account)
  | raised (auth : AuthUser)
  deriving DecidableEq, Repr

structure Accounts where
  users : AccountTable
  calls : ℕ → Call

/-- `advance` runs the next statement of a call; `newId` is the generated key of its new row. -/
inductive AccountAction
  | start (c : ℕ) (auth : AuthUser)
  | advance (c : ℕ) (newId : UUID)

namespace Accounts

def setCall (s : Accounts) (c : ℕ) (call : Call) : Accounts :=
  { s with calls := Function.update s.calls c call }

@[simp] theorem setCall_self (s : Accounts) (c : ℕ) (call : Call) : (s.setCall c call).calls c = call :=
  Function.update_self ..

theorem setCall_of_ne (s : Accounts) {c d : ℕ} (hne : d ≠ c) (call : Call) :
    (s.setCall c call).calls d = s.calls d := Function.update_of_ne hne ..

/-- The next statement of a call. A text that no column holds is refused by the driver, or by the server. -/
def statement (s : Accounts) (c : ℕ) (newId : UUID) (auth : AuthUser) : ProvisionStage → Accounts
  | .selecting =>
    if textFits auth.id = false then s.setCall c (.raised auth)
    else match selectBySub s.users auth.id with
      | [] => s.setCall c (.running auth .inserting)
      | [row] => s.setCall c (.returned auth row.1 row.2)
      | _ => s.setCall c (.raised auth)
  | .inserting =>
    if optionalTextFits auth.email = false then s.setCall c (.raised auth)
    else if violates s.users newId auth.account then s.setCall c (.running auth .rollingBack)
    else { s with users := s.users.insert newId auth.account }.setCall c (.returned auth newId auth.account)
  | .rollingBack => s.setCall c (.running auth .reselecting)
  | .reselecting =>
    match selectBySub s.users auth.id with
    | [row] => s.setCall c (.returned auth row.1 row.2)
    | _ => s.setCall c (.raised auth)

def step (s : Accounts) : AccountAction → Option Accounts
  | .start c auth =>
    match s.calls c with
    | .idle => some (s.setCall c (.running auth .selecting))
    | _ => none
  | .advance c newId =>
    match s.calls c with
    | .running auth stage => some (s.statement c newId auth stage)
    | _ => none

/-- A users table and no call. -/
def ofUsers (users : AccountTable) : Accounts := ⟨users, fun _ ↦ .idle⟩

end Accounts

/-- The unique constraints on `auth_provider_id` and on `email`. -/
structure UniqueAccounts (users : AccountTable) : Prop where
  sub : ∀ id id' row row' sub, users.lookup id = some row → users.lookup id' = some row' →
    row.authProviderId = some sub → row'.authProviderId = some sub → id = id'
  email : ∀ id id' row row' email, users.lookup id = some row → users.lookup id' = some row' →
    row.email = some email → row'.email = some email → id = id'

/-- Every call ends with a row of its own subject, which is the only one, and no row changes. -/
structure Provisioned (trace : List (Accounts × AccountAction)) (s : Accounts) : Prop where
  noRaise : ∀ c auth, s.calls c ≠ .raised auth
  own : ∀ c auth id user, s.calls c = .returned auth id user →
    s.users.lookup id = some user ∧ user.authProviderId = some auth.id
  unique : UniqueAccounts s.users
  kept : ∀ before action, (before, action) ∈ trace → ∀ id user, before.users.lookup id = some user →
    s.users.lookup id = some user

/-- An insertion meets its email under another subject: there is a row with the email, and none
of the call's own subject. -/
def Accounts.emailTaken (s : Accounts) (auth : AuthUser) : Bool :=
  (selectBySub s.users auth.id).isEmpty &&
    (Table.rows s.users).any fun row ↦ duplicates row.2.email auth.email

/-- Identities are storable texts, generated keys are new, and no insertion meets its email under
another subject. -/
def Accounts.separate (s : Accounts) : AccountAction → Bool
  | .start _ auth => textFits auth.id && optionalTextFits auth.email
  | .advance c newId =>
    match s.calls c with
    | .running auth .inserting => decide (newId ∉ s.users) && !s.emailTaken auth
    | _ => true

section

variable {users : AccountTable} {id : UUID} {user : Account} {sub : Text}

theorem mem_selectBySub : (id, user) ∈ selectBySub users sub ↔
    users.lookup id = some user ∧ user.authProviderId = some sub := by
  unfold selectBySub
  rw [List.mem_filter, Table.mem_rows, decide_eq_true_eq]

/-- With the unique constraint a subject is found once or not at all. -/
theorem UniqueAccounts.selectBySub_cases (h : UniqueAccounts users) (sub : Text) :
    selectBySub users sub = [] ∨ ∃ id user, selectBySub users sub = [(id, user)] ∧
      users.lookup id = some user ∧ user.authProviderId = some sub := by
  have hkeys : ((selectBySub users sub).map Prod.fst).Nodup :=
    (Table.rows_keys_nodup users).sublist (List.filter_sublist.map _)
  match hrows : selectBySub users sub with
  | [] => exact .inl rfl
  | [row] => exact .inr ⟨row.1, row.2, rfl, mem_selectBySub.mp (hrows ▸ List.mem_cons_self)⟩
  | first :: second :: rest =>
    have hfirst := mem_selectBySub.mp (hrows ▸ List.mem_cons_self : first ∈ selectBySub users sub)
    have hsecond := mem_selectBySub.mp
      (hrows ▸ List.mem_cons_of_mem _ List.mem_cons_self : second ∈ selectBySub users sub)
    have hsame := h.sub _ _ _ _ sub hfirst.1 hsecond.1 hfirst.2 hsecond.2
    rw [hrows, List.map_cons, List.map_cons, List.nodup_cons] at hkeys
    exact absurd (hsame ▸ List.mem_cons_self) hkeys.1

theorem duplicates_iff {stored new : Option Text} :
    duplicates stored new = true ↔ ∃ text, stored = some text ∧ new = some text := by
  cases new with
  | none => simp [duplicates]
  | some text => simp [duplicates]

theorem violates_eq_false {account : Account} (h : violates users id account = false) :
    id ∉ users ∧ ∀ other row, users.lookup other = some row →
      duplicates row.authProviderId account.authProviderId = false ∧
        duplicates row.email account.email = false := by
  rw [violates, Bool.or_eq_false_iff, decide_eq_false_iff_not, List.any_eq_false] at h
  refine ⟨h.1, fun other row hrow ↦ ?_⟩
  have hnot := h.2 (other, row) (Table.mem_rows.mpr hrow)
  rw [Bool.not_eq_true, Bool.or_eq_false_iff] at hnot
  exact hnot

/-- An accepted row keeps both columns unique. -/
theorem UniqueAccounts.insert (h : UniqueAccounts users) {account : Account}
    (haccepted : violates users id account = false) : UniqueAccounts (users.insert id account) := by
  obtain ⟨hfresh, hdistinct⟩ := violates_eq_false haccepted
  have hcolumn (column : Account → Option Text)
      (hunique : ∀ i j row row' text, users.lookup i = some row → users.lookup j = some row' →
        column row = some text → column row' = some text → i = j)
      (hnew : ∀ j row, users.lookup j = some row → duplicates (column row) (column account) = false)
      (i j : UUID) (row row' : Account) (text : Text) (hi : (users.insert id account).lookup i = some row)
      (hj : (users.insert id account).lookup j = some row') (hrow : column row = some text)
      (hrow' : column row' = some text) : i = j := by
    rw [Table.lookup_insert_eq] at hi hj
    split at hi <;> split at hj
    · rename_i hone htwo
      exact hone.trans htwo.symm
    · cases hi
      have hclash := hnew j row' hj
      rw [duplicates_iff.mpr ⟨text, hrow', hrow⟩] at hclash
      cases hclash
    · cases hj
      have hclash := hnew i row hi
      rw [duplicates_iff.mpr ⟨text, hrow, hrow'⟩] at hclash
      cases hclash
    · exact hunique i j row row' text hi hj hrow hrow'
  exact ⟨hcolumn Account.authProviderId h.sub fun j row hrow ↦ (hdistinct j row hrow).1,
    hcolumn Account.email h.email fun j row hrow ↦ (hdistinct j row hrow).2⟩

end

section

variable {s s' : Accounts} {c : ℕ} {newId : UUID} {auth : AuthUser} {action : AccountAction}
  {trace : List (Accounts × AccountAction)}

/-- Everything a statement can do, under the guard. -/
inductive AccountOutcome (s : Accounts) (c : ℕ) (auth : AuthUser) : ProvisionStage → Accounts → Prop
  | unknown (none : selectBySub s.users auth.id = []) :
      AccountOutcome s c auth .selecting (s.setCall c (.running auth .inserting))
  | found (stage : ProvisionStage) (id : UUID) (user : Account)
      (row : s.users.lookup id = some user ∧ user.authProviderId = some auth.id) :
      AccountOutcome s c auth stage (s.setCall c (.returned auth id user))
  | inserted (newId : UUID) (accepted : violates s.users newId auth.account = false) :
      AccountOutcome s c auth .inserting
        ({ s with users := s.users.insert newId auth.account }.setCall c (.returned auth newId auth.account))
  | rejected (other : selectBySub s.users auth.id ≠ []) :
      AccountOutcome s c auth .inserting (s.setCall c (.running auth .rollingBack))
  | rolledBack : AccountOutcome s c auth .rollingBack (s.setCall c (.running auth .reselecting))

/-- A rejected insertion under the guard lost a race for its own subject. -/
theorem exists_own_of_violates (hfresh : newId ∉ s.users) (hemail : s.emailTaken auth = false)
    (hviolates : violates s.users newId auth.account = true) : selectBySub s.users auth.id ≠ [] := by
  intro hnone
  rw [Accounts.emailTaken, hnone, List.isEmpty_nil, Bool.true_and, List.any_eq_false] at hemail
  rw [violates, decide_eq_false hfresh, Bool.false_or, List.any_eq_true] at hviolates
  obtain ⟨row, hrow, hclash⟩ := hviolates
  rcases Bool.or_eq_true_iff.mp hclash with hsub | hsame
  · obtain ⟨text, hstored, hnew⟩ := duplicates_iff.mp hsub
    cases hnew
    have hmem : row ∈ selectBySub s.users auth.id := mem_selectBySub.mpr ⟨Table.mem_rows.mp hrow, hstored⟩
    rw [hnone] at hmem
    exact absurd hmem List.not_mem_nil
  · exact hemail row hrow hsame

/-- What a run keeps: unique rows, storable identities, and a row behind every rejected call. -/
structure AccountInvariant (s : Accounts) : Prop where
  unique : UniqueAccounts s.users
  texts : ∀ c auth stage, s.calls c = .running auth stage →
    textFits auth.id = true ∧ optionalTextFits auth.email = true
  lost : ∀ c auth, (s.calls c = .running auth .rollingBack ∨ s.calls c = .running auth .reselecting) →
    selectBySub s.users auth.id ≠ []

theorem AccountInvariant.outcome (h : AccountInvariant s) {stage : ProvisionStage}
    (hcall : s.calls c = .running auth stage) (hguard : s.separate (.advance c newId) = true) :
    AccountOutcome s c auth stage (s.statement c newId auth stage) := by
  obtain ⟨hsub, hemail⟩ := h.texts c auth stage hcall
  have hfound := h.unique.selectBySub_cases auth.id
  cases stage with
  | selecting =>
    simp only [Accounts.statement]
    rw [if_neg (by rw [hsub]; exact Bool.false_ne_true.symm)]
    rcases hfound with hnone | ⟨id, user, hone, hrow⟩
    · rw [hnone]
      exact .unknown hnone
    · rw [hone]
      exact .found .selecting id user hrow
  | inserting =>
    simp only [Accounts.statement]
    rw [if_neg (by rw [hemail]; exact Bool.false_ne_true.symm)]
    simp only [Accounts.separate, hcall, Bool.and_eq_true, decide_eq_true_eq, Bool.not_eq_true'] at hguard
    split
    · rename_i hviolates
      exact .rejected (exists_own_of_violates hguard.1 hguard.2 hviolates)
    · rename_i haccepted
      exact .inserted newId (Bool.not_eq_true _ ▸ haccepted)
  | rollingBack => exact .rolledBack
  | reselecting =>
    have hown := h.lost c auth (.inr hcall)
    simp only [Accounts.statement]
    rcases hfound with hnone | ⟨id, user, hone, hrow⟩
    · exact absurd hnone hown
    · rw [hone]
      exact .found .reselecting id user hrow

/-- No statement changes or removes a row. -/
theorem AccountOutcome.kept {stage : ProvisionStage} (h : AccountOutcome s c auth stage s') {id : UUID}
    {user : Account} (hrow : s.users.lookup id = some user) : s'.users.lookup id = some user := by
  cases h with
  | inserted newId accepted =>
    have hne : id ≠ newId := fun heq ↦ (violates_eq_false accepted).1
      (heq ▸ AList.lookup_isSome.mp (by rw [hrow]; rfl))
    exact (AList.lookup_insert_ne hne).trans hrow
  | unknown | found | rejected | rolledBack => exact hrow

theorem AccountOutcome.other {stage : ProvisionStage} (h : AccountOutcome s c auth stage s') {d : ℕ}
    (hne : d ≠ c) : s'.calls d = s.calls d := by
  cases h <;> exact Accounts.setCall_of_ne _ hne _

/-- What a guarded step does to the calls and the table. -/
inductive AccountStep (s : Accounts) : AccountAction → Accounts → Prop
  | started (c : ℕ) (auth : AuthUser) (idle : s.calls c = .idle) :
      AccountStep s (.start c auth) (s.setCall c (.running auth .selecting))
  | advanced (c : ℕ) (newId : UUID) (auth : AuthUser) (stage : ProvisionStage)
      (running : s.calls c = .running auth stage) (s' : Accounts)
      (outcome : AccountOutcome s c auth stage s') :
      AccountStep s (.advance c newId) s'

theorem AccountInvariant.step (h : AccountInvariant s) (hguard : s.separate action = true)
    (hstep : s.step action = some s') : AccountStep s action s' := by
  cases action with
  | start c auth =>
    simp only [Accounts.step] at hstep
    split at hstep
    · rename_i hidle
      cases hstep
      exact .started c auth hidle
    · cases hstep
  | advance c newId =>
    simp only [Accounts.step] at hstep
    split at hstep
    · rename_i auth stage hrunning
      cases hstep
      exact .advanced c newId auth stage hrunning _ (h.outcome hrunning hguard)
    · cases hstep

theorem AccountStep.kept (h : AccountStep s action s') {id : UUID} {user : Account}
    (hrow : s.users.lookup id = some user) : s'.users.lookup id = some user := by
  cases h with
  | started => exact hrow
  | advanced c newId auth stage running s' outcome => exact outcome.kept hrow

theorem selectBySub_ne_nil_iff {users : AccountTable} {sub : Text} : selectBySub users sub ≠ [] ↔
    ∃ id user, users.lookup id = some user ∧ user.authProviderId = some sub := by
  constructor
  · intro hsome
    obtain ⟨⟨id, user⟩, hmem⟩ := List.exists_mem_of_ne_nil _ hsome
    exact ⟨id, user, mem_selectBySub.mp hmem⟩
  · rintro ⟨id, user, hrow⟩
    exact List.ne_nil_of_mem (mem_selectBySub.mpr hrow)

/-- A row of a subject is found in every later state. -/
theorem AccountStep.selectBySub_kept (h : AccountStep s action s') {sub : Text}
    (hown : selectBySub s.users sub ≠ []) : selectBySub s'.users sub ≠ [] := by
  obtain ⟨id, user, hrow, hsub⟩ := selectBySub_ne_nil_iff.mp hown
  exact selectBySub_ne_nil_iff.mpr ⟨id, user, h.kept hrow, hsub⟩

theorem AccountStep.invariant (h : AccountStep s action s') (hguard : s.separate action = true)
    (hinv : AccountInvariant s) : AccountInvariant s' := by
  constructor
  · cases h with
    | started => exact hinv.unique
    | advanced c newId auth stage running s' outcome =>
      cases outcome with
      | inserted newId accepted => exact hinv.unique.insert accepted
      | unknown | found | rejected | rolledBack => exact hinv.unique
  · intro d auth' stage' hcall
    cases h with
    | started c auth idle =>
      by_cases hd : d = c
      · rw [hd, Accounts.setCall_self] at hcall
        cases hcall
        simpa [Accounts.separate] using hguard
      · rw [Accounts.setCall_of_ne _ hd] at hcall
        exact hinv.texts d auth' stage' hcall
    | advanced c newId auth stage running s' outcome =>
      by_cases hd : d = c
      · subst hd
        -- a call keeps its identity from statement to statement
        have hsame : auth' = auth := by
          cases outcome <;> rw [Accounts.setCall_self] at hcall <;> cases hcall <;> rfl
        rw [hsame]
        exact hinv.texts d auth stage running
      · rw [outcome.other hd] at hcall
        exact hinv.texts d auth' stage' hcall
  · intro d auth' hlate
    cases h with
    | started c auth idle =>
      by_cases hd : d = c
      · rw [hd, Accounts.setCall_self] at hlate
        rcases hlate with hcall | hcall <;> cases hcall
      · rw [Accounts.setCall_of_ne _ hd] at hlate
        exact hinv.lost d auth' hlate
    | advanced c newId auth stage running s' outcome =>
      by_cases hd : d = c
      · subst hd
        cases outcome with
        | rejected other =>
          rw [Accounts.setCall_self] at hlate
          rcases hlate with hcall | hcall <;> cases hcall
          exact other
        | rolledBack =>
          rw [Accounts.setCall_self] at hlate
          rcases hlate with hcall | hcall <;> cases hcall
          exact hinv.lost d _ (.inl running)
        | unknown | found | inserted =>
          rw [Accounts.setCall_self] at hlate
          rcases hlate with hcall | hcall <;> cases hcall
      · have hsame := outcome.other hd
        rw [hsame] at hlate
        have hstep : AccountStep s (.advance c newId) s' := .advanced c newId auth stage running s' outcome
        exact hstep.selectBySub_kept (hinv.lost d auth' hlate)

/-- A step that keeps the invariant keeps what the calls promise. -/
theorem AccountStep.provisioned (h : AccountStep s action s') (hunique : UniqueAccounts s'.users)
    (hprovisioned : Provisioned trace s) : Provisioned (trace ++ [(s, action)]) s' := by
  have hcalls (d : ℕ) : s'.calls d = s.calls d ∨ (∃ auth stage, s'.calls d = .running auth stage) ∨
      ∃ auth id user, s'.calls d = .returned auth id user ∧ s'.users.lookup id = some user ∧
        user.authProviderId = some auth.id := by
    cases h with
    | started c auth idle =>
      by_cases hd : d = c
      · subst hd
        exact .inr (.inl ⟨auth, .selecting, Accounts.setCall_self ..⟩)
      · exact .inl (Accounts.setCall_of_ne _ hd _)
    | advanced c newId auth stage running s' outcome =>
      by_cases hd : d = c
      · subst hd
        cases outcome with
        | unknown | rejected | rolledBack => exact .inr (.inl ⟨auth, _, Accounts.setCall_self ..⟩)
        | found stage id user row => exact .inr (.inr ⟨auth, id, user, Accounts.setCall_self .., row⟩)
        | inserted newId accepted =>
          exact .inr (.inr ⟨auth, newId, auth.account, Accounts.setCall_self .., AList.lookup_insert _, rfl⟩)
      · exact .inl (outcome.other hd)
  refine ⟨fun d auth hraised ↦ ?_, fun d auth id user hreturned ↦ ?_, hunique,
    fun before earlier hmem id user hrow ↦ ?_⟩
  · rcases hcalls d with hsame | ⟨_, _, hrunning⟩ | ⟨_, _, _, hdone, _⟩
    · exact hprovisioned.noRaise d auth (hsame.symm.trans hraised)
    · cases hrunning.symm.trans hraised
    · cases hdone.symm.trans hraised
  · rcases hcalls d with hsame | ⟨_, _, hrunning⟩ | ⟨_, _, _, hdone, hrow⟩
    · obtain ⟨hrow, hsub⟩ := hprovisioned.own d auth id user (hsame.symm.trans hreturned)
      exact ⟨h.kept hrow, hsub⟩
    · cases hrunning.symm.trans hreturned
    · cases hdone.symm.trans hreturned
      exact hrow
  · rcases List.mem_append.mp hmem with hmem | hmem
    · exact h.kept (hprovisioned.kept before earlier hmem id user hrow)
    · cases List.mem_singleton.mp hmem
      exact h.kept hrow

/-- In every run, from any users table, whose insertions meet no email of another subject, every
call ends with the one row of its own subject, and no row changes. -/
theorem users_provisioned {users : AccountTable} (hunique : UniqueAccounts users)
    (hrun : Run Accounts.step (fun s action ↦ s.separate action = true) (.ofUsers users) trace s) :
    Provisioned trace s := by
  have hall : AccountInvariant s ∧ Provisioned trace s := by
    refine hrun.trace_invariant (fun trace s ↦ AccountInvariant s ∧ Provisioned trace s) ⟨?_, ?_⟩ ?_
    · refine ⟨hunique, fun _ _ _ hidle ↦ ?_, fun _ _ hidle ↦ ?_⟩
      · cases hidle
      · rcases hidle with hidle | hidle <;> cases hidle
    · refine ⟨fun _ _ hidle ↦ ?_, fun _ _ _ _ hidle ↦ ?_, hunique, fun _ _ h ↦ absurd h List.not_mem_nil⟩
      · cases hidle
      · cases hidle
    · rintro trace s action s' ⟨hinv, hprovisioned⟩ hguard hstep
      have haccount := hinv.step hguard hstep
      have hnext := haccount.invariant hguard hinv
      exact ⟨hnext, haccount.provisioned hnext.unique hprovisioned⟩
  exact hall.2

end

/-! ## Two subjects with one email -/

/-- A user that signed up with an email. -/
def registered : AccountTable := AList.singleton ⟨1⟩ (AuthUser.account ⟨"first", some "a@example.com"⟩)

theorem registered_unique : UniqueAccounts registered := by
  have honly {id : UUID} {row : Account} (h : registered.lookup id = some row) : id = ⟨1⟩ := by
    have hmem := Table.mem_rows.mpr h
    rw [show Table.rows registered = [(⟨1⟩, AuthUser.account ⟨"first", some "a@example.com"⟩)] from rfl,
      List.mem_singleton] at hmem
    exact (Prod.mk.inj hmem).1
  exact ⟨fun _ _ _ _ _ hfirst hsecond _ _ ↦ (honly hfirst).trans (honly hsecond).symm,
    fun _ _ _ _ _ hfirst hsecond _ _ ↦ (honly hfirst).trans (honly hsecond).symm⟩

/-- One call from its first statement on. -/
def callActions (auth : AuthUser) (statements : ℕ) : List AccountAction :=
  .start 0 auth :: List.replicate statements (.advance 0 ⟨2⟩)

/-- A new subject with the email of a stored one: the insertion is rejected, the second `SELECT`
finds no row, and the call raises. -/
theorem users_not_provisioned : ¬ ∀ (users : AccountTable) (trace : List (Accounts × AccountAction))
    (s : Accounts), UniqueAccounts users → Run Accounts.step (fun _ _ ↦ True) (.ofUsers users) trace s →
      Provisioned trace s := by
  intro hprovisioned
  have hcall : (exec Accounts.step (.ofUsers registered) (callActions ⟨"second", some "a@example.com"⟩ 4)).map
      (·.calls 0) = some (.raised ⟨"second", some "a@example.com"⟩) := by
    decide +kernel
  obtain ⟨s, hexec, hraised⟩ := Option.map_eq_some_iff.mp hcall
  exact (hprovisioned registered _ s registered_unique (run_of_exec hexec)).noRaise 0 _ hraised

/-- Two calls of a new subject with an email of its own find no row; one inserts it, and the other one is
rejected and returns the same row. -/
theorem users_provisioned_sample : ∃ trace s,
    (∀ c < 2, s.calls c = .returned ⟨"second", some "b@example.com"⟩ ⟨2⟩
        (AuthUser.account ⟨"second", some "b@example.com"⟩)) ∧
      Provisioned trace s := by
  let auth : AuthUser := ⟨"second", some "b@example.com"⟩
  let actions : List AccountAction :=
    [.start 0 auth, .start 1 auth, .advance 0 ⟨2⟩, .advance 1 ⟨3⟩, .advance 0 ⟨2⟩,
    .advance 1 ⟨3⟩, .advance 1 ⟨3⟩, .advance 1 ⟨3⟩]
  have hexec : (exec (fun s action ↦ if s.separate action = true then Accounts.step s action else none)
      (.ofUsers registered) actions).map (fun s ↦ (s.calls 0, s.calls 1)) =
        some (.returned auth ⟨2⟩ auth.account, .returned auth ⟨2⟩ auth.account) := by
    decide +kernel
  obtain ⟨s, hs, hcalls⟩ := Option.map_eq_some_iff.mp hexec
  obtain ⟨hfirst, hsecond⟩ := Prod.mk.inj hcalls
  obtain ⟨trace, hrun⟩ := exists_guarded_append .nil hs
  refine ⟨trace, s, fun c hc ↦ ?_, users_provisioned registered_unique hrun⟩
  rcases Nat.le_one_iff_eq_zero_or_eq_one.mp (Nat.le_of_lt_succ hc) with rfl | rfl
  · exact hfirst
  · exact hsecond

end VoiceSpend
