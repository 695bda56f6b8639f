import VoiceSpend.Library.Table
import VoiceSpend.Store.Columns

/-!
# Rows and tables

One structure per table, without its primary key: a row's key is its place in the
`Table`. The ten columns a client may set are grouped as `ClientColumns`, because the
upsert copies exactly these.
-/

namespace VoiceSpend

inductive ParseStatus
  | «local»
  | enriched
  | failed
  deriving DecidableEq, Repr

inductive Tier
  | free
  | pro
  deriving DecidableEq, Repr

inductive EntitlementStatus
  | active
  | expired
  | inGrace
  | cancelled
  deriving DecidableEq, Repr

inductive Store
  | appStore
  | playStore
  | stripe
  | lemonsqueezy
  deriving DecidableEq, Repr

inductive SyncRecordStatus
  | applied
  | staleIgnored
  | rejected
  deriving DecidableEq, Repr

/-- `users`, as far as conversion reads it. -/
structure User where
  baseCurrency : Text
  deriving DecidableEq, Repr

/-- `devices`, as far as ownership checks read it. -/
structure Device where
  userId : UUID
  deriving DecidableEq, Repr

/-- The columns a client may set on an upsert (`_CLIENT_UPDATE_COLUMNS`). -/
structure ClientColumns where
  amountOriginal : Money
  currencyOriginal : Text
  category : Option Text
  paymentMethod : Option Text
  merchant : Option Text
  note : Option Text
  spentAt : Instant
  clientRev : ℕ
  rawTranscript : Option Text
  deletedAt : Option Instant
  deriving DecidableEq, Repr

/-- `expenses`, keyed by the client-generated id. -/
structure Expense where
  userId : UUID
  deviceId : UUID
  client : ClientColumns
  amountBase : Option Money
  currencyBase : Option Text
  parseStatus : ParseStatus
  createdAt : Instant
  updatedAt : Instant
  serverSeq : ℕ
  deriving DecidableEq, Repr

/-- `usage_counters`, keyed by user and period. -/
structure UsageCounter where
  logCount : ℕ
  createdAt : Instant
  updatedAt : Instant
  deriving DecidableEq, Repr

/-- `entitlements`, keyed by user. -/
structure Entitlement where
  tier : Tier
  status : EntitlementStatus
  productId : Option Text
  store : Option Store
  revenuecatAppUserId : Option Text
  currentPeriodEnd : Option Instant
  lastEventTsMs : Option ℤ
  createdAt : Instant
  updatedAt : Instant
  deriving DecidableEq, Repr

/-- `fx_rates`, keyed by currency code and date. A code is kept without the blanks that pad it. -/
structure FxRate where
  ratePerUsd : Rate
  source : Option String
  deriving DecidableEq, Repr

abbrev FxTable := Table (Text × Date) FxRate

abbrev UsageTable := Table (UUID × Period) UsageCounter

/-- The committed tables the sync endpoints read and write, and the last value handed out
by `expenses_sync_seq`. -/
structure Db where
  users : Table UUID User
  devices : Table UUID Device
  expenses : Table UUID Expense
  usageCounters : UsageTable
  entitlements : Table UUID Entitlement
  syncSeq : ℕ

/-- `get_usage_count`. -/
def usageCount (counters : UsageTable) (user : UUID) (period : Period) : ℕ :=
  (counters.lookup (user, period)).elim 0 (·.logCount)

/-- All logs counted for a user, over every period. -/
def usageTotal (counters : UsageTable) (user : UUID) : ℕ :=
  Table.total (fun key counter ↦ if key.1 = user then counter.logCount else 0) counters

/-- How many expense rows a user has. -/
def expenseCount (expenses : Table UUID Expense) (user : UUID) : ℕ :=
  Table.total (fun _ expense ↦ if expense.userId = user then 1 else 0) expenses

end VoiceSpend
