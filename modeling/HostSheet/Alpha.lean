import HostSheet.Decimal.Binary
import HostSheet.HostValue.Basic

/-!
# Alpha

A sheet writes the alpha of a colour as a number between 0 and 1, a host as one of 256 steps. Going
to the host rounds to the nearest step; coming back is exact, so a step survives the round trip.
-/

namespace HostSheet.Alpha

def clamp (x : Float) : Float :=
  if x < 0 then 0 else if 1 < x then 1 else x

/-- The step nearest to an alpha, the higher of two. A NaN counts as wholly transparent. -/
def toStep (alpha : Float) : UInt8 :=
  match Decimal.Binary.ofFloat (clamp alpha * 255) with
  | .finite _ mantissa exponent =>
    let (num, den) := Decimal.ratio mantissa exponent
    UInt8.ofNat (Decimal.roundHalfUp num den)
  | _ => 0

def ofStep (step : UInt8) : Float :=
  step.toFloat / 255

end HostSheet.Alpha

namespace HostSheet

def Color.toRgba (c : Color) : Rgba :=
  ⟨c.red, c.green, c.blue, Alpha.toStep c.alpha⟩

def Rgba.toColor (c : Rgba) : Color :=
  ⟨c.red, c.green, c.blue, Alpha.ofStep c.alpha⟩

end HostSheet
