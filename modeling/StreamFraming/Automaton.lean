import StreamFraming.Declaration
import StreamFraming.Options

/-!
# Framing octet by octet

What framing means, as an automaton that takes one octet of a stream at a time and never
looks back. Between octets it is either in a line, of which it keeps what it has seen, or in
a payload, of which it knows how much is still to come.
-/

namespace StreamFraming

/-- Where a stream stands between two octets. -/
inductive Mode where
  /-- In a line that has begun with these octets. -/
  | line (seen : Octets)
  /-- In a payload of which `left` octets are still to come. -/
  | payload (left : Nat)
deriving DecidableEq

/-- At the start of a payload of `left` octets, or of a line if there are none. -/
def Mode.ofPending (left : Nat) : Mode := if left = 0 then .line [] else .payload left

/-- Whether the next octet is payload. -/
def Mode.inPayload : Mode → Bool
  | .line _ => false
  | .payload _ => true

/-- The automaton after some octets of a stream. -/
structure Automaton where
  mode : Mode := .line []
  /-- The number of octets taken. -/
  position : Nat := 0
  /-- The number of octets whose part in the stream is decided. -/
  valid : Nat := 0
  /-- The number of synchronizing literals declared. -/
  synchronizing : Nat := 0
deriving DecidableEq

namespace Automaton

/-- Whether a line feed ends a line that has begun with `seen`. -/
def ends (o : Options) (seen : Octets) : Bool := seen.getLast? = some Octet.cr || !o.strictCrlf

/-- The content of a line that has begun with `seen` and ends here. -/
def content (seen : Octets) : Octets :=
  if seen.getLast? = some Octet.cr then seen.dropLast else seen

/-- Takes the line feed that ends a line of this content. -/
def confirm (a : Automaton) (content : Octets) : Automaton :=
  let position := a.position + 1
  match Declaration.parse? content with
  | some d =>
    { mode := .ofPending d.length.toNat
      position
      valid := position
      synchronizing := a.synchronizing + d.continuations }
  | none => { a with mode := .line [], position, valid := position }

/-- Takes one octet. -/
def step (o : Options) (a : Automaton) (b : UInt8) : Automaton :=
  match a.mode with
  | .payload left =>
    { a with mode := .ofPending (left - 1), position := a.position + 1, valid := a.position + 1 }
  | .line seen =>
    if b = Octet.lf ∧ ends o seen then a.confirm (content seen)
    else { a with mode := .line (seen ++ [b]), position := a.position + 1 }

/-- Takes some octets. -/
def run (o : Options) (a : Automaton) (octets : Octets) : Automaton := octets.foldl (step o) a

/-- The automaton after a stream. -/
def after (o : Options) (stream : Octets) : Automaton := run o {} stream

/-- For each octet, whether it is taken as payload. -/
def payloadFlags (o : Options) (a : Automaton) : Octets → List Bool
  | [] => []
  | b :: octets => a.mode.inPayload :: (a.step o b).payloadFlags o octets

/-- Whether an octet ends a line that has no carriage return for it. -/
def endsBare (o : Options) (a : Automaton) (b : UInt8) : Bool :=
  match a.mode with
  | .line seen => b = Octet.lf && ends o seen && seen.getLast? != some Octet.cr
  | .payload _ => false

/-- The number of lines that end without a carriage return. -/
def bareEnds (o : Options) (a : Automaton) : Octets → Nat
  | [] => 0
  | b :: octets => (if a.endsBare o b then 1 else 0) + (a.step o b).bareEnds o octets

/-- A run over two pieces is the run over the second from where the first ends. -/
theorem run_append (o : Options) (a : Automaton) (xs ys : Octets) :
    run o a (xs ++ ys) = run o (run o a xs) ys := by
  rw [run, List.foldl_append, ← run, ← run]

end Automaton

end StreamFraming
