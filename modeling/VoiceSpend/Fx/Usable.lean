import VoiceSpend.Fx.Storable

/-!
# Are normalized rates usable?

The loop of `normalize_to_usd_pivot` skips a rate that is not finite or not positive, before it is
quantized. A rate below half a unit of `NUMERIC(18, 8)` passes and is stored as a zero, which no
conversion can divide by; one that is too wide for the context or for the column, or whose code is
too long for its own or is another one with blanks at the end, raises and takes the rest of the payload
with it.
-/

namespace VoiceSpend

section

variable {upper : Text → Text} {baseCurrency : Text} {values : List (Text × Quote)}
  {leg : Option ℚ} {normalized : Table Text ℚ} {entry : Text × Quote}

/-! ## Usable entries -/

end

/-! ## A rate that becomes zero -/

end VoiceSpend
