import StyleAudit.Machine.Shell.Arithmetic

/-! # Printed text of the shell

Backslash escapes and the formats of `printf`. -/

namespace StyleAudit.Machine.Shell
set_option autoImplicit false

/-- Escapes of a single letter. -/
def letterEscape : Char → Option Char
  | 'a' => some '\x07'
  | 'b' => some '\x08'
  | 'e' => some '\x1b'
  | 'f' => some '\x0c'
  | 'n' => some '\n'
  | 'r' => some '\r'
  | 't' => some '\t'
  | 'v' => some '\x0b'
  | '\\' => some '\\'
  | _ => none

def isOctal (c : Char) : Bool := '0' ≤ c && c ≤ '7'

/-- The byte of at most `n` octal digits at the start of a text, and the rest. -/
def octalByte (n : Nat) (cs : Octets) : Char × Octets :=
  let digits := (cs.take n).takeWhile isOctal
  (Char.ofNat (Text.valueIn 8 digits % 256), cs.drop digits.length)

/-- Replace the escapes of an argument. The flag says that `\c` ended all output. -/
def unescape : Nat → Octets → Octets × Bool
  | 0, _ => ([], false)
  | _, [] => ([], false)
  | fuel + 1, '\\' :: c :: rest =>
    if c == 'c' then ([], true)
    else if c == '0' then
      let (b, rest) := octalByte 3 rest
      let (out, stop) := unescape fuel rest
      (b :: out, stop)
    else if isOctal c then
      let (b, rest) := octalByte 3 (c :: rest)
      let (out, stop) := unescape fuel rest
      (b :: out, stop)
    else
      let (out, stop) := unescape fuel rest
      match letterEscape c with
      | some d => (d :: out, stop)
      | none => ('\\' :: c :: out, stop)
  | fuel + 1, c :: rest =>
    let (out, stop) := unescape fuel rest
    (c :: out, stop)

/-- What `echo` prints. -/
def echoText (args : List Octets) : Octets :=
  let (args, newline) := match args with
    | ['-', 'n'] :: rest => (rest, [])
    | _ => (args, ['\n'])
  let joined := [' '].intercalate args
  let (out, stop) := unescape (joined.length + 1) joined
  if stop then out else out ++ newline

/-- A width or precision: absent, written in the format, or taken from the arguments. -/
inductive Measure where
  | absent
  | fixed (n : Nat)
  | taken

structure Conversion where
  flags : Octets
  width : Measure
  precision : Measure
  kind : Char

inductive Directive where
  | text (cs : Octets)
  | conversion (c : Conversion)
  | bad (cs : Octets)

def measureAt (cs : Octets) : Measure × Octets :=
  match cs with
  | '*' :: rest => (.taken, rest)
  | _ =>
    let digits := cs.takeWhile Char.isDigit
    if digits.isEmpty then (.absent, cs)
    else (.fixed (numeralIn 10 0 digits).1, cs.drop digits.length)

/-- The parts of a format. Each call uses up at least one character. -/
def directives : Nat → Octets → List Directive
  | 0, _ => []
  | _, [] => []
  | fuel + 1, '\\' :: c :: rest =>
    if isOctal c then
      let (b, rest) := octalByte 3 (c :: rest)
      .text [b] :: directives fuel rest
    else match letterEscape c with
      | some d => .text [d] :: directives fuel rest
      | none => .text ['\\', c] :: directives fuel rest
  | fuel + 1, '%' :: '%' :: rest => .text ['%'] :: directives fuel rest
  | fuel + 1, '%' :: rest =>
    let isFlag := fun c => "#-+ 0".toList.contains c
    let flags := rest.takeWhile isFlag
    let (width, after) := measureAt (rest.dropWhile isFlag)
    let (precision, after) := match after with
      | '.' :: more =>
        match measureAt more with
        | (.absent, more) => (.fixed 0, more)
        | found => found
      | _ => (.absent, after)
    match after with
    | kind :: more =>
      if "sbcdiouxX".toList.contains kind then
        .conversion ⟨flags, width, precision, kind⟩ :: directives fuel more
      else [.bad ('%' :: rest.take (rest.length - more.length))]
    | [] => [.bad []]
  | fuel + 1, c :: rest => .text [c] :: directives fuel rest

/-- Fill a text up to a width. -/
def pad (flags : Octets) (width : Nat) (fill : Char) (cs : Octets) : Octets :=
  let missing := width - cs.length
  if flags.contains '-' then cs ++ List.replicate missing ' '
  else List.replicate missing fill ++ cs

/-- Digits of a number with at least a given number of them, and its sign. -/
def numberText (flags : Octets) (width : Nat) (precision : Option Nat) (sign digits : Octets) :
    Octets :=
  let body := List.replicate (precision.getD 0 - digits.length) '0' ++ digits
  if flags.contains '0' && !flags.contains '-' && precision.isNone then
    sign ++ List.replicate (width - sign.length - body.length) '0' ++ body
  else pad flags width ' ' (sign ++ body)

def digitsIn (base : Nat) (upper : Bool) (n : Nat) : Octets :=
  let ds := Nat.toDigits base n
  if upper then ds.map Char.toUpper else ds

/-- What has been printed, what was wrong, and the arguments that are left. -/
structure Printed where
  out : Octets := []
  complaints : List String := []
  args : List Octets
  used : Bool := false
  stopped : Bool := false

def Printed.take (p : Printed) : Option Octets × Printed :=
  match p.args with
  | a :: rest => (some a, { p with args := rest, used := true })
  | [] => (none, { p with used := true })

/-- A numeric argument; a complaint is kept for one that is no number. -/
def Printed.takeNumber (p : Printed) : Int × Printed :=
  match p.take with
  | (none, p) => (0, p)
  | (some ('"' :: c :: _), p) => (c.toNat, p)
  | (some ('\x27' :: c :: _), p) => (c.toNat, p)
  | (some a, p) =>
    let (n, rest) := signedNumeral a
    let shown := Octets.toText a
    if n < -9223372036854775808 || 9223372036854775808 ≤ n then
      (if n < 0 then -9223372036854775808 else 9223372036854775807,
        { p with complaints := p.complaints ++ [shown ++ ": Numerical result out of range"] })
    else if a.isEmpty || rest.isEmpty then (n, p)
    else if rest.length == a.length then
      (n, { p with complaints := p.complaints ++ [shown ++ ": expected numeric value"] })
    else (n, { p with complaints := p.complaints ++ [shown ++ ": not completely converted"] })

def Printed.measure (p : Printed) : Measure → Option Nat × Printed
  | .absent => (none, p)
  | .fixed n => (some n, p)
  | .taken =>
    let (n, p) := p.takeNumber
    (some n.toNat, p)

def Printed.convert (p : Printed) (c : Conversion) : Printed :=
  let (width, p) := p.measure c.width
  let (precision, p) := p.measure c.precision
  let width := width.getD 0
  let cut := fun cs : Octets => match precision with
    | some n => cs.take n
    | none => cs
  let emit := fun (p : Printed) (cs : Octets) => { p with out := p.out ++ cs }
  match c.kind with
  | 's' =>
    let (a, p) := p.take
    emit p (pad c.flags width ' ' (cut (a.getD [])))
  | 'b' =>
    let (a, p) := p.take
    let a := a.getD []
    let (text, stop) := unescape (a.length + 1) a
    { emit p (pad c.flags width ' ' (cut text)) with stopped := stop }
  | 'c' =>
    let (a, p) := p.take
    emit p (pad c.flags width ' ' ((a.getD []).take 1))
  | kind =>
    let (n, p) := p.takeNumber
    if kind == 'd' || kind == 'i' then
      let sign := if n < 0 then ['-'] else if c.flags.contains '+' then ['+']
        else if c.flags.contains ' ' then [' '] else []
      emit p (numberText c.flags width precision sign (digitsIn 10 false n.natAbs))
    else
      let word := (n % 18446744073709551616).toNat
      let digits := match kind with
        | 'o' => digitsIn 8 false word
        | 'x' => digitsIn 16 false word
        | 'X' => digitsIn 16 true word
        | _ => digitsIn 10 false word
      let mark := if !c.flags.contains '#' || word == 0 then []
        else match kind with
          | 'o' => ['0']
          | 'x' => ['0', 'x']
          | 'X' => ['0', 'X']
          | _ => []
      emit p (numberText c.flags width precision mark digits)

/-- Print by the parts of a format once. A bad part ends the output and is given back. -/
def Printed.once (p : Printed) : List Directive → Printed × Option Octets
  | [] => (p, none)
  | .text cs :: rest => Printed.once { p with out := p.out ++ cs } rest
  | .bad cs :: _ => (p, some cs)
  | .conversion c :: rest =>
    let p := p.convert c
    if p.stopped then (p, none) else Printed.once p rest

/-- Print by a format until the arguments are used up. -/
def Printed.all (format : List Directive) : Nat → Printed → Printed × Option Octets
  | 0, p => (p, none)
  | fuel + 1, p =>
    match p.once format with
    | (p, some cs) => (p, some cs)
    | (p, none) =>
      if p.stopped || p.args.isEmpty || !p.used then (p, none) else Printed.all format fuel p

/-- What `printf` prints and complains about. -/
def printfText (format : Octets) (args : List Octets) : Printed × Option Octets :=
  Printed.all (directives (format.length + 1) format) (args.length + 1) { args }

end StyleAudit.Machine.Shell
