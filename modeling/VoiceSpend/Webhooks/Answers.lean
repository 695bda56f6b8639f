import VoiceSpend.Webhooks.Handler

/-!
# Does the webhook answer every input?

The schema admits any integers and any texts, and a header is any text. Some of what they pass
through is partial: the comparison of the secret, the datetime of a millisecond count, a `BIGINT`, a
text column. Each of these raises, and RevenueCat delivers the same event again.
-/

namespace VoiceSpend

def isAsciiText (text : String) : Bool := text.toList.all Char.isAscii

/-! ## The datetime of a millisecond count -/

section

variable {rt : Runtime} {settings : Settings} {db : Billing} {authorization : Option String}
  {event : RevenueCatEvent} {now : Instant}

theorem verifyAuth_eq_some_true_iff : verifyAuth settings authorization = some true ↔
    settings.revenuecatWebhookAuth ≠ "" ∧ authorization = some settings.revenuecatWebhookAuth ∧
      isAsciiText settings.revenuecatWebhookAuth = true := by
  cases authorization with
  | none => simp [verifyAuth]
  | some text =>
    by_cases hblank : settings.revenuecatWebhookAuth = ""
    · simp [verifyAuth, hblank]
    · simp [verifyAuth, hblank, isAsciiText]
      grind

end

end VoiceSpend
