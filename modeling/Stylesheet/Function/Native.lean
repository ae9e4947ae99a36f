import Stylesheet.Text.Basic

/-!
# Native functions

The functions that the style language itself knows; calls to them are kept.
-/

namespace Stylesheet

def nativeNames : List String := [
  "url", "attr", "calc", "var", "env", "min", "max", "clamp", "counter",
  "counters", "format", "local", "image-set", "element",
  "cubic-bezier", "steps", "rgb", "rgba", "hsl", "hsla", "hwb", "lab", "lch",
  "color", "alpha", "linear-gradient", "radial-gradient", "conic-gradient",
  "repeating-linear-gradient", "repeating-radial-gradient", "-webkit-gradient",
  "-webkit-linear-gradient", "-webkit-radial-gradient", "-moz-linear-gradient",
  "-moz-radial-gradient", "-o-linear-gradient", "-ms-linear-gradient",
  "gradient", "color-stop", "from", "to", "shadow", "matrix", "matrix3d",
  "translate", "translatex", "translatey", "translatez", "translate3d",
  "scale", "scalex", "scaley", "scalez", "scale3d", "rotate", "rotatex",
  "rotatey", "rotatez", "rotate3d", "skew", "skewx", "skewy", "perspective",
  "blur", "brightness", "contrast", "drop-shadow", "grayscale", "hue-rotate",
  "invert", "opacity", "saturate", "sepia"]

/-- Whether a function is native, in any letter case. -/
def isNative (name : Text) : Bool :=
  nativeNames.any fun native => native.toList == name.lower

end Stylesheet
