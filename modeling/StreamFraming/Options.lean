/-!
# Framing options

The one choice that a receiver has about framing: what ends a line.
-/

namespace StreamFraming

/-- How a stream is divided into lines. -/
structure Options where
  /-- Whether only CR LF ends a line. Otherwise LF alone ends one too. -/
  strictCrlf : Bool := false
deriving DecidableEq, Inhabited

end StreamFraming
