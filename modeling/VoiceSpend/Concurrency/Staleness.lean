import VoiceSpend.Concurrency.Steps

/-!
# Is `amount_base` ever stale?

A sweep reads the inputs of a conversion in one statement, its two rates in two more, and
writes the result in a fourth. In a run in which the row's inputs are still the selected ones at
the `UPDATE`, and the first rate is still the current one when a query finds the second,
`BaseCurrent` holds of every row version.
-/

namespace VoiceSpend

open Machine

/-- The committed `fx_rates` tables of a run. -/
def ratesSeen (trace : List (SyncSystem × SyncAction)) (s : SyncSystem) : List FxTable :=
  trace.map (·.1.fxRates) ++ [s.fxRates]

/-- `amount_base` and `currency_base` are NULL together, and otherwise `amount_base` is the
conversion of the row's inputs under one of the tables. -/
structure BaseCurrent (tables : List FxTable) (row : Expense) : Prop where
  null : row.amountBase = none ↔ row.currencyBase = none
  converted : ∀ amountBase currencyBase, row.amountBase = some amountBase →
    row.currencyBase = some currencyBase → ∃ rates ∈ tables,
      convert rates row.client.amountOriginal.toRat row.client.currencyOriginal currencyBase
        row.client.spentAt.date = some (some amountBase.toRat)

/-- The next statement of a sweep goes on with what a change has overtaken: it updates a row whose inputs
are no longer the selected ones, or its query of the second rate finds one while the first is no longer the
current one. The rate of the dollar is not queried. -/
def SyncSystem.sweepOvertaken (s : SyncSystem) : SyncAction → Bool
  | .advance t _ =>
    match s.procs t with
    | .sweep ⟨_, _, _, _, .lookingUp row rateFrom _⟩ =>
      row.baseCurrency ≠ "USD" ∧ (ratePerUsd s.fxRates row.baseCurrency row.spentAt.date).isSome ∧
        ratePerUsd s.fxRates row.currencyOriginal row.spentAt.date ≠ some rateFrom
    | .sweep ⟨_, _, _, _, .updating row amountBase _⟩ =>
      (Numeric.ofRat 18 4 amountBase).isSome &&
        (s.expenses.visible t row.id).any fun current ↦ current.inputs ≠ row.inputs
    | _ => false
  | _ => false

/-- The first rate a sweep has read is one of the tables', and so is the value it is about to write a conversion
under one of them. -/
def SweepStage.Ready (tables : List FxTable) : SweepStage → Prop
  | .lookingUp row rateFrom _ => row.currencyOriginal ≠ row.baseCurrency ∧
      ∃ rates ∈ tables, ratePerUsd rates row.currencyOriginal row.spentAt.date = some rateFrom
  | .updating row amountBase _ => ∃ rates ∈ tables, convert rates row.amountOriginal.toRat
      row.currencyOriginal row.baseCurrency row.spentAt.date = some (some amountBase)
  | _ => True

def Proc.Ready (tables : List FxTable) : Proc → Prop
  | .sweep run => run.stage.Ready tables
  | _ => True

section

variable {rt : Runtime} {settings : Settings} {s s' : SyncSystem} {t u : ℕ} {clock : Instant}
  {effect : Effect} {action : SyncAction} {tables more : List FxTable} {row : Expense}

theorem BaseCurrent.mono (h : BaseCurrent tables row) (hsub : tables ⊆ more) : BaseCurrent more row := by
  refine ⟨h.null, fun amountBase currencyBase hamount hcurrency ↦ ?_⟩
  obtain ⟨rates, hmem, hconvert⟩ := h.converted amountBase currencyBase hamount hcurrency
  exact ⟨rates, hsub hmem, hconvert⟩

theorem Proc.Ready.mono {proc : Proc} (h : proc.Ready tables) (hsub : tables ⊆ more) : proc.Ready more := by
  cases proc with
  | sweep run =>
    obtain ⟨userId, limit, tie, now, stage⟩ := run
    cases stage with
    | lookingUp row rateFrom todo =>
      obtain ⟨hne, rates, hmem, hrate⟩ := h
      exact ⟨hne, rates, hsub hmem, hrate⟩
    | updating row amountBase todo =>
      obtain ⟨rates, hmem, hconvert⟩ := h
      exact ⟨rates, hsub hmem, hconvert⟩
    | selecting | converting => exact h
  | idle | push | nullify | answered | done | failed => trivial

/-! ## What is written -/

theorem BaseCurrent.stamped (h : BaseCurrent tables row) : BaseCurrent tables (s.stamped row) :=
  ⟨h.null, h.converted⟩

theorem baseCurrent_of_null (hamount : row.amountBase = none) (hcurrency : row.currencyBase = none) :
    BaseCurrent tables row := by
  refine ⟨by simp [hamount, hcurrency], fun amountBase _ hsome ↦ ?_⟩
  rw [hamount] at hsome
  cases hsome

/-- The upsert's `CASE`: the base columns stay only if no input changes. -/
theorem BaseCurrent.onConflict (h : BaseCurrent tables row) (excluded : ClientColumns) (serverSeq : ℕ) :
    BaseCurrent tables (row.onConflict excluded serverSeq) := by
  by_cases hstale : row.amountBaseIsStale excluded = true
  · exact baseCurrent_of_null (by simp [Expense.onConflict, hstale]) (by simp [Expense.onConflict, hstale])
  · have hsame : row.client.amountOriginal = excluded.amountOriginal ∧
        row.client.currencyOriginal = excluded.currencyOriginal ∧ row.client.spentAt = excluded.spentAt := by
      simpa [Expense.amountBaseIsStale, and_assoc] using hstale
    refine ⟨by simp [Expense.onConflict, hstale, h.null], fun amountBase currencyBase hamount hcurrency ↦ ?_⟩
    simp only [Expense.onConflict, hstale, if_false, Bool.false_eq_true] at hamount hcurrency
    rw [Expense.onConflict_client, ← hsame.1, ← hsame.2.1, ← hsame.2.2]
    exact h.converted amountBase currencyBase hamount hcurrency

/-- The sweep's `UPDATE` of a row whose inputs are the selected ones. -/
theorem baseCurrent_recomputed {selected : SweepRow} {amountBase : ℚ} {stored : Money} (now : Instant)
    (hready : SweepStage.Ready tables (.updating selected amountBase []))
    (hstored : Numeric.ofRat 18 4 amountBase = some stored) (hinputs : row.inputs = selected.inputs) :
    BaseCurrent tables (row.recomputed stored selected.baseCurrency now) := by
  refine ⟨by simp [Expense.recomputed], fun written currencyBase hwritten hcurrency ↦ ?_⟩
  obtain rfl : stored = written := Option.some.inj hwritten
  obtain rfl : selected.baseCurrency = currencyBase := Option.some.inj hcurrency
  obtain ⟨rates, hmem, hconvert⟩ := hready
  obtain ⟨hamount, hrest⟩ := Prod.mk.inj hinputs
  obtain ⟨horiginal, hspent⟩ := Prod.mk.inj hrest
  refine ⟨rates, hmem, ?_⟩
  rw [toRat_of_convert hconvert hstored, ← hconvert]
  change convert rates row.client.amountOriginal.toRat row.client.currencyOriginal _
    (Instant.date row.client.spentAt) = _
  rw [hamount, horiginal, hspent]

/-! ## One step -/

/-- No transaction but a sweep needs anything: its rows come out as they should. -/
theorem PushRun.Steps.baseCurrent {run : PushRun} (steps : run.Steps rt s t clock effect)
    (hall : AllRows (BaseCurrent tables) s) (performs : Performs s t effect s') :
    AllRows (BaseCurrent tables) s' := by
  refine hall.performs performs (fun id row next heq ↦ ?_) (fun id row next heq ↦ ?_)
  · cases steps <;> cases heq
    exact baseCurrent_of_null rfl rfl
  · cases steps <;> cases heq
    rename_i insertion todo drawn returned stage old found newer
    exact ((hall.visible found).onConflict insertion.client (s.syncSeq + 1)).stamped

theorem SyncSystem.inputs_of_allowed {run : SweepRun} {selected : SweepRow} {amountBase : ℚ}
    {todo : List SweepRow} {stored : Money} {current : Expense}
    (hok : s.sweepOvertaken (.advance t clock) = false)
    (hrun : s.procs t = .sweep run) (stage : run.stage = .updating selected amountBase todo)
    (fits : Numeric.ofRat 18 4 amountBase = some stored)
    (found : s.expenses.visible t selected.id = some current) : current.inputs = selected.inputs := by
  obtain ⟨userId, limit, tie, now, _⟩ := run
  subst stage
  simpa [sweepOvertaken, hrun, fits, found] using hok

theorem SyncSystem.rate_of_allowed {run : SweepRun} {selected : SweepRow} {rateFrom : ℚ}
    {todo : List SweepRow} (hok : s.sweepOvertaken (.advance t clock) = false) (hrun : s.procs t = .sweep run)
    (stage : run.stage = .lookingUp selected rateFrom todo) {rateTo : ℚ}
    (hbase : selected.baseCurrency ≠ "USD")
    (found : ratePerUsd s.fxRates selected.baseCurrency selected.spentAt.date = some rateTo) :
    ratePerUsd s.fxRates selected.currencyOriginal selected.spentAt.date = some rateFrom := by
  obtain ⟨userId, limit, tie, now, _⟩ := run
  subst stage
  simpa [sweepOvertaken, hrun, hbase, found] using hok

/-- The two rates of a conversion are those of one of the tables. -/
theorem SweepRun.rates_together {run : SweepRun} {selected : SweepRow} {rateFrom rateTo : ℚ}
    {todo : List SweepRow} (hrun : s.procs t = .sweep run) (hok : s.sweepOvertaken (.advance t clock) = false)
    (hrates : s.fxRates ∈ tables) (hready : run.stage.Ready tables)
    (stage : run.stage = .lookingUp selected rateFrom todo)
    (found : ratePerUsd s.fxRates selected.baseCurrency selected.spentAt.date = some rateTo) :
    ∃ rates ∈ tables, ratePerUsd rates selected.currencyOriginal selected.spentAt.date = some rateFrom ∧
      ratePerUsd rates selected.baseCurrency selected.spentAt.date = some rateTo := by
  rw [stage] at hready
  obtain ⟨_, rates, hmem, hrate⟩ := hready
  by_cases hbase : selected.baseCurrency = "USD"
  · -- the dollar has the same rate in every table
    refine ⟨rates, hmem, hrate, ?_⟩
    rw [← found, ratePerUsd, ratePerUsd, if_pos hbase, if_pos hbase]
  · exact ⟨s.fxRates, hrates, SyncSystem.rate_of_allowed hok hrun stage hbase found, found⟩

theorem SweepRun.Steps.baseCurrent {run : SweepRun} (steps : run.Steps settings s t effect)
    (hrun : s.procs t = .sweep run) (hok : s.sweepOvertaken (.advance t clock) = false)
    (hready : run.stage.Ready tables) (hall : AllRows (BaseCurrent tables) s)
    (performs : Performs s t effect s') : AllRows (BaseCurrent tables) s' := by
  refine hall.performs performs (fun id row next heq ↦ ?_) (fun id row next heq ↦ ?_)
  · cases steps <;> cases heq
  · cases steps with
    | updated selected amountBase todo stage stored fits current found =>
      cases heq
      rw [stage] at hready
      exact (baseCurrent_recomputed run.now hready fits
        (SyncSystem.inputs_of_allowed hok hrun stage fits found)).stamped
    | raised | selected | sameCurrency | firstRate | noFirstRate | secondRate | noSecondRate | gone
    | finished => cases heq

/-- What a sweep reads makes its next value ready. -/
theorem SweepRun.Steps.ready {run : SweepRun} (steps : run.Steps settings s t effect)
    (hrun : s.procs t = .sweep run) (hok : s.sweepOvertaken (.advance t clock) = false)
    (hrates : s.fxRates ∈ tables) (hready : run.stage.Ready tables) : effect.next.Ready tables := by
  cases steps with
  | raised | finished | selected | noFirstRate | noSecondRate | gone | updated => trivial
  | sameCurrency row todo stage same => exact ⟨s.fxRates, hrates, by rw [convert, if_pos same]⟩
  | firstRate row todo stage rateFrom different found => exact ⟨different, s.fxRates, hrates, found⟩
  | secondRate row rateFrom todo stage rateTo amountBase found converted =>
    obtain ⟨rates, hmem, hfrom, hto⟩ := SweepRun.rates_together hrun hok hrates hready stage found
    rw [stage] at hready
    exact ⟨rates, hmem, convert_of_rates hready.1 hfrom hto converted⟩

theorem NullifyRun.Steps.baseCurrent {run : NullifyRun} (steps : run.Steps s t effect)
    (hall : AllRows (BaseCurrent tables) s) (performs : Performs s t effect s') :
    AllRows (BaseCurrent tables) s' := by
  refine hall.performs performs (fun id row next heq ↦ ?_) (fun id row next heq ↦ ?_)
  · cases steps <;> cases heq
  · cases steps <;> cases heq
    exact baseCurrent_of_null rfl rfl

/-- What a run keeps. -/
structure Fresh (tables : List FxTable) (s : SyncSystem) : Prop where
  rates : s.fxRates ∈ tables
  rows : AllRows (BaseCurrent tables) s
  ready : ∀ t, (s.procs t).Ready tables

theorem Outcome.baseCurrent (h : Outcome rt settings s action s') (hok : s.sweepOvertaken action = false)
    (hfresh : Fresh tables s) : AllRows (BaseCurrent tables) s' := by
  cases h with
  | pushed t clock run running effect steps s' performs => exact steps.baseCurrent hfresh.rows performs
  | swept t clock run running effect steps s' performs =>
    have hready := hfresh.ready t
    rw [running] at hready
    exact steps.baseCurrent running hok hready hfresh.rows performs
  | nullified t clock run running effect steps s' performs => exact steps.baseCurrent hfresh.rows performs
  | aborted t running => exact hfresh.rows.release rfl hfresh.rows.committed
  | started | ratesUpserted | pulled => exact ⟨hfresh.rows.committed, hfresh.rows.drafts⟩

theorem Outcome.ready (h : Outcome rt settings s action s') (hok : s.sweepOvertaken action = false)
    (hfresh : Fresh tables s) (u : ℕ) : (s'.procs u).Ready tables := by
  by_cases hactor : action.actor = some u
  · cases h with
    | started t request idle =>
      cases hactor
      rw [SyncSystem.setProc_procs]
      cases request <;> trivial
    | pushed t clock run running effect steps s' performs =>
      cases hactor
      rw [performs.proc]
      cases steps <;> trivial
    | swept t clock run running effect steps s' performs =>
      cases hactor
      have hready := hfresh.ready u
      rw [running] at hready
      rw [performs.proc]
      exact steps.ready running hok hfresh.rates hready
    | nullified t clock run running effect steps s' performs =>
      cases hactor
      rw [performs.proc]
      cases steps <;> trivial
    | aborted t running =>
      cases hactor
      rw [SyncSystem.rollback_procs]
      trivial
    | ratesUpserted | pulled => cases hactor
  · rw [(h.untouched hactor).proc]
    exact hfresh.ready u

theorem ratesSeen_snoc (trace : List (SyncSystem × SyncAction)) (s s' : SyncSystem) (action : SyncAction) :
    ratesSeen (trace ++ [(s, action)]) s' = ratesSeen trace s ++ [s'.fxRates] := by
  simp [ratesSeen]

/-- In every run from empty tables in which no sweep is overtaken, no committed row is stale. -/
theorem amountBase_current {trace : List (SyncSystem × SyncAction)}
    (hrun : SyncSystem.FromEmpty rt settings (fun s action ↦ s.sweepOvertaken action = false) trace s) :
    ∀ id row, s.expenses.committed.lookup id = some row → BaseCurrent (ratesSeen trace s) row := by
  obtain ⟨users, devices, fxRates, reader, hrun⟩ := hrun
  have hfresh : Fresh (ratesSeen trace s) s := by
    refine hrun.trace_invariant (fun trace s ↦ Fresh (ratesSeen trace s) s) ⟨?_, ?_, ?_⟩ ?_
    · exact List.mem_singleton_self _
    · constructor
      · intro id row hrow
        simp [SyncSystem.initial, SyncSystem.ofTables] at hrow
      · intro t id row hrow
        simp [SyncSystem.initial, SyncSystem.ofTables] at hrow
    · intro t
      trivial
    · intro trace s action s' hfresh hok hstep
      have houtcome := SyncSystem.step_outcome hstep
      have hsub := List.subset_append_left (ratesSeen trace s) [s'.fxRates]
      rw [ratesSeen_snoc]
      exact ⟨List.mem_append_right _ (List.mem_singleton_self _),
        (houtcome.baseCurrent hok hfresh).mono fun _ hrow ↦ hrow.mono hsub,
        fun u ↦ (houtcome.ready hok hfresh u).mono hsub⟩
  exact hfresh.rows.committed

end

/-- The stored amounts and currencies of one expense, in units of `10 ^ -4`. -/
def storedAmounts (s : SyncSystem) (id : UUID) : Option (ℤ × Text × Option ℤ × Option Text) :=
  (s.expenses.committed.lookup id).map fun row ↦ (row.client.amountOriginal.units,
    row.client.currencyOriginal, row.amountBase.map (·.units), row.currencyBase)

/-- The sweep selects the amount 12, an edit to 13 commits, and the sweep writes 12. -/
def overtakenActions : List SyncAction :=
  SyncSystem.transaction 0 (.push ⟨1⟩ [sampleExpense 12 1] 0) 7 ++
    SyncSystem.transaction 1 (.sweep none none (fun _ ↦ 0) 0) 2 ++
    SyncSystem.transaction 2 (.push ⟨1⟩ [sampleExpense 13 2] 0) 7 ++ List.replicate 2 (.advance 1 0)

/-- After it the row says that 13 USD are 12 USD. -/
theorem amountBase_not_current : ¬ ∀ (rt : Runtime) (settings : Settings)
    (trace : List (SyncSystem × SyncAction)) (s : SyncSystem),
    SyncSystem.FromEmpty rt settings (fun _ _ ↦ True) trace s →
      ∀ id row, s.expenses.committed.lookup id = some row → BaseCurrent (ratesSeen trace s) row := by
  intro hcurrent
  have hexec : (exec (SyncSystem.step .ascii sampleSettings) .sample overtakenActions).map
      (storedAmounts · ⟨3⟩) = some (some (130000, ("USD" : Text), some 120000, some ("USD" : Text))) := by
    decide +kernel
  obtain ⟨s, hs, hstored⟩ := Option.map_eq_some_iff.mp hexec
  have hrun := run_of_exec hs
  obtain ⟨row, hrow, hfacts⟩ := Option.map_eq_some_iff.mp hstored
  simp only [Prod.mk.injEq, Option.map_eq_some_iff] at hfacts
  obtain ⟨hamount, hcurrency, ⟨amountBase, hbase, hunits⟩, hcurrencyBase⟩ := hfacts
  have hbaseCurrent := hcurrent .ascii sampleSettings _ s ⟨_, _, _, _, hrun⟩ ⟨3⟩ row hrow
  obtain ⟨rates, _, hconvert⟩ := hbaseCurrent.converted amountBase "USD" hbase hcurrencyBase
  rw [hcurrency, convert, if_pos rfl] at hconvert
  simp only [Option.some.injEq, Numeric.toRat, hamount, hunits] at hconvert
  norm_num at hconvert

/-- The sweep runs between the two pushes: the edit makes the value NULL again, and a second
sweep writes the new one. -/
theorem amountBase_current_sample : ∃ trace s row,
    storedAmounts s ⟨3⟩ = some (130000, ("USD" : Text), some 130000, some ("USD" : Text)) ∧
      s.expenses.committed.lookup ⟨3⟩ = some row ∧ BaseCurrent (ratesSeen trace s) row := by
  let guardedStep (s : SyncSystem) (action : SyncAction) : Option SyncSystem :=
    if s.sweepOvertaken action = false then SyncSystem.step .ascii sampleSettings s action else none
  have hexec : (exec guardedStep .sample (SyncSystem.transaction 0 (.push ⟨1⟩ [sampleExpense 12 1] 0) 7 ++
      SyncSystem.transaction 1 (.sweep none none (fun _ ↦ 0) 0) 4 ++
      SyncSystem.transaction 2 (.push ⟨1⟩ [sampleExpense 13 2] 0) 7 ++
      SyncSystem.transaction 3 (.sweep none none (fun _ ↦ 0) 0) 4)).map
      (storedAmounts · ⟨3⟩) = some (some (130000, ("USD" : Text), some 130000, some ("USD" : Text))) := by
    decide +kernel
  obtain ⟨s, hs, hstored⟩ := Option.map_eq_some_iff.mp hexec
  obtain ⟨trace, hrun⟩ := exists_guarded_append .nil hs
  obtain ⟨row, hrow, _⟩ := Option.map_eq_some_iff.mp hstored
  exact ⟨trace, s, row, hstored, hrow, amountBase_current ⟨_, _, _, _, hrun⟩ ⟨3⟩ row hrow⟩

end VoiceSpend
