import ProtoForge.Bytes

/-!
# Terminal controls

Messages about usage go through a filter that drops what would only steer a
terminal: control bytes other than blanks, and whole control sequences. A
sequence begins with an escape; its further bytes decide how it ends. A blank
inside a sequence is kept, and what follows it counts as text.
-/
namespace ProtoForge.CommandLine.Terminal

/-- The byte that begins a control sequence. -/
def escapeByte : UInt8 := 0x1b

/-- Where a byte stands: in text, or in a kind of control sequence. -/
inductive Place where
  | text
  | escape
  | escapeMiddle
  | start
  | parameters
  | middle
  | ignored
  | deviceStart
  | deviceParameters
  | deviceMiddle
  | deviceIgnored
  | deviceData
  | systemCommand
  | message
  deriving DecidableEq, Repr

/-- Whether a byte lies between two others. -/
def between (low high b : UInt8) : Bool := low ≤ b && b ≤ high

/-- The place after the byte that follows an escape. -/
def Place.afterEscape (b : UInt8) : Place :=
  if b = 0x5b then .start
  else if b = 0x5d then .systemCommand
  else if b = 0x50 then .deviceStart
  else if b = 0x58 || b = 0x5e || b = 0x5f then .message
  else if between 0x20 0x2f b then .escapeMiddle
  else if between 0x30 0x7e b then .text
  else .escape

/-- Where the bytes of a sequence with parameters lead: a further parameter, a byte past
the parameters, a parameter out of order, and the last byte. -/
structure Ways where
  onward : Place
  past : Place
  astray : Place
  done : Place

/-- The ways of a control sequence. -/
def Ways.control : Ways := ⟨.parameters, .middle, .ignored, .text⟩

/-- The ways of a sequence for a device. -/
def Ways.device : Ways := ⟨.deviceParameters, .deviceMiddle, .deviceIgnored, .deviceData⟩

/-- The place after a byte among parameters; the first one may be a private mark. -/
def Ways.afterParameter (w : Ways) (here : Place) (atStart : Bool) (b : UInt8) : Place :=
  if between 0x20 0x2f b then w.past
  else if between 0x30 0x3b b then w.onward
  else if between 0x3c 0x3f b then if atStart then w.onward else w.astray
  else if between 0x40 0x7e b then w.done
  else here

/-- The place after a byte past the parameters. -/
def Ways.afterMiddle (w : Ways) (b : UInt8) : Place :=
  if between 0x30 0x3f b then w.astray else if between 0x40 0x7e b then w.done else w.past

/-- The place after a byte; some bytes mean the same everywhere. -/
def Place.next (p : Place) (b : UInt8) : Place :=
  if b = 0x18 || b = 0x1a then .text
  else if b = escapeByte then .escape
  else
    match p with
    | text => .text
    | escape => afterEscape b
    | escapeMiddle => if between 0x30 0x7e b then .text else .escapeMiddle
    | start => Ways.control.afterParameter .start true b
    | parameters => Ways.control.afterParameter .parameters false b
    | middle => Ways.control.afterMiddle b
    | ignored => if between 0x40 0x7e b then .text else .ignored
    | deviceStart => Ways.device.afterParameter .deviceStart true b
    | deviceParameters => Ways.device.afterParameter .deviceParameters false b
    | deviceMiddle => Ways.device.afterMiddle b
    | deviceIgnored => if b = 0x9c then .text else .deviceIgnored
    | deviceData => if b = 0x9c then .text else .deviceData
    | systemCommand => if b = 0x07 then .text else .systemCommand
    | message => if b = 0x9c then .text else .message

/-- Whether control bytes act at a place, so that blanks among them show. -/
def Place.acts : Place → Bool
  | text | escape | escapeMiddle | start | parameters | middle | ignored => true
  | _ => false

/-- Whether a byte is a control byte that shows as a blank. -/
def isBlankControl (b : UInt8) : Bool := b = 0x09 || b = 0x0a || b = 0x0c || b = 0x0d

/-- Whether a byte of text shows: it is printable or begins a character beyond ASCII. -/
def shows (b : UInt8) : Bool :=
  isBlankControl b || between 0x20 0x7e b || between 0xc2 0xf4 b

/-- The number of bytes after the first one of a character. -/
def following (b : UInt8) : Nat :=
  if b < 0xc2 then 0 else if b < 0xe0 then 1 else if b < 0xf0 then 2 else 3

/-- What a filter keeps of bytes. `shown` tells whether the byte before was kept, `owed`
how many bytes are still to be kept to complete a character. -/
def filter (place : Place) (shown : Bool) : (owed : Nat) → Bytes → Bytes
  | _, [] => []
  | owed + 1, b :: rest => b :: filter .text true owed rest
  | 0, b :: rest =>
      if (shown || place = .text) && shows b || place.acts && isBlankControl b then
        b :: filter place true (following b) rest
      else filter (place.next b) false 0 rest

/-- A filter only drops bytes. -/
theorem filter_sublist (place : Place) (shown : Bool) (owed : Nat) (b : Bytes) :
    (filter place shown owed b).Sublist b := by
  fun_induction filter place shown owed b with
  | case1 => exact List.Sublist.refl []
  | case2 _ _ _ b _ ih => exact ih.cons_cons b
  | case3 _ _ b _ _ ih => exact ih.cons_cons b
  | case4 _ _ b _ _ ih => exact ih.cons b

/-- A message without terminal controls. -/
def plain (s : String) : String := Bytes.toTextLossy (filter .text false 0 (Bytes.ofText s))

/-- A piece of a message that is set off: at its end the terminal is told to go back to
plain text, which ends a control sequence that the piece left open. -/
def setOff (s : String) : String := s ++ "\x1b[0m"

end ProtoForge.CommandLine.Terminal
