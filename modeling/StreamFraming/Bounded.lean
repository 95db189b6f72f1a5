import StreamFraming.Framer

/-!
# Loops with a limit

The two loops of a scan, the search for a line's end and the turns, cut off after a number
of rounds. A loop that is cut off has no result, so one that has a result was not cut off.
-/

namespace StreamFraming

/-- As `search`, with at most `looks` looks for a line feed. -/
def Line.searchWithin (o : Options) :
    (looks offset : Nat) → (last : Option UInt8) → Octets → Option (Option Line.Extent)
  | 0, _, _, _ => none
  | looks + 1, offset, last, octets =>
    match Line.splitAtLf? octets with
    | none => some none
    | some (before, after) =>
      let lf := offset + before.length
      let crlf := before.getLast?.or last == some Octet.cr
      if crlf || !o.strictCrlf then some (some (.endingAt lf crlf))
      else searchWithin o looks (lf + 1) (some Octet.lf) after

/-- As `scanFrom`, with at most `turns` turns. -/
def Framer.scanWithin : (turns : Nat) → Framer → Octets → Nat → List Event → Option Scan
  | 0, _, _, _, _ => none
  | turns + 1, f, rest, synchronizing, log =>
    match f.turn rest with
    | .stop g new => some { framer := g, synchronizing, log := (new.reverse ++ log).reverse }
    | .next g after n new => scanWithin turns g after (synchronizing + n) (new.reverse ++ log)

end StreamFraming
