import VoiceSpend.Webhooks.History

/-!
# Reading the tables back as the history

For events whose numbers fit, `HistoryMeaning` describes the entitlements and the audit
table after any serial history from empty tables. It fails in one way: an event with the
character NUL in a text is refused by the audit insert, so it leaves no trace and is
retried for ever.
-/

namespace VoiceSpend

open Register

section

variable {rt : Runtime} {settings : Settings} {authorization : Option String} {users : Table UUID User}
  {history : List WebhookDelivery} {applied : List RevenueCatEvent} {row : Option Entitlement}

end

section

variable (rt : Runtime) (settings : Settings) (authorization : Option String) (users : Table UUID User)
  (history : List WebhookDelivery)

end

end VoiceSpend
