import LetWhile.Code.Builtin
import LetWhile.Code.Lower
import LetWhile.Decimal

/-!
Block code as text. Registers are numbered in the order in which they are listed, function by
function; texts are numbered in the order of their first use.
-/
namespace LetWhile.Code

def Ty.text : Ty → String
  | .i1 => "i1"
  | .i8 => "i8"
  | .i32 => "i32"
  | .i64 => "i64"
  | .double => "double"
  | .pointer ty => ty.text ++ "*"
  | .array size ty => s!"[{size} x {ty.text}]"

def upperHex (n : Nat) : String := String.ofList ((Nat.toDigits 16 n).map Char.toUpper)

/-- A byte that shows as itself inside quotes. -/
def isPlainByte (b : UInt8) : Bool := 0x20 ≤ b && b ≤ 0x7E && b ≠ 0x22 && b ≠ 0x5C

def quoteByte (b : UInt8) : String :=
  if isPlainByte b then String.singleton (Char.ofNat b.toNat)
  else if b < 0x10 then "\\0" ++ upperHex b.toNat
  else "\\" ++ upperHex b.toNat

def quoteBytes (s : String) : String := String.join (s.toUTF8.toList.map quoteByte)

def isNameChar (c : Char) : Bool :=
  ('a' ≤ c && c ≤ 'z') || ('A' ≤ c && c ≤ 'Z') || ('0' ≤ c && c ≤ '9') ||
    c = '$' || c = '.' || c = '_' || c = '-'

/-- The name of a local value, quoted where it has to be. -/
def localName (s : String) : String :=
  if s.toList.all isNameChar then "%" ++ s else "%\"" ++ quoteBytes s ++ "\""

def Part.name : Part → String
  | .bound => "bound"
  | .isBool => "isbool"
  | .num => "num"

def Part.ty : Part → Ty
  | .bound | .isBool => .i1
  | .num => .double

def Cell.name (c : Cell) : String := s!"{c.slot.name}.{c.part.name}.{c.slot.index}"

def Label.text : Label → String
  | .plain name => name
  | .numbered stem index => s!"{stem}.{index}"

/-- Constants keep plain digits for the same exponents as bindings do. -/
def constantFormat : NumberFormat where
  plain := fun e => decide (-4 ≤ e) && decide (e < 6)
  nan := ""
  infinity := ""
  negativeInfinity := ""

/-- Puts `.0` behind the whole digits if there is no point. -/
def withPoint (cs : List Char) : List Char :=
  if '.' ∈ cs then cs
  else cs.takeWhile (· ≠ 'e') ++ ['.', '0'] ++ cs.dropWhile (· ≠ 'e')

/-- A decimal where its fewest digits are the exact value, otherwise the bits. -/
def constant (x : Float) : String :=
  let code := Double.code x
  let bits := "0x" ++ upperHex x.toBits.toNat
  if Double.infinity ≤ code then bits
  else
    let d := Decimal.shortest code
    if d.isExact code then
      String.ofList (withPoint (constantFormat.finite (Double.negative x) d))
    else bits

/-- How many bytes a text takes, the final null included. -/
def textSize (s : String) : Nat := s.utf8ByteSize + 1

/-- The name of the text with the given number. -/
def textName (k : Nat) : String := s!".str.{k}"

/-- What rendering has to know: the number of every text and of every register. -/
structure Numbering where
  texts : List String
  regs : Array Nat

def textRef (texts : List String) (s : String) : String :=
  let ty := (Ty.array (textSize s) .i8).text
  s!"getelementptr ({ty}, {ty}* @{textName (texts.idxOf s)}, i32 0, i32 0)"

def Operand.render (n : Numbering) : Operand → String
  | .bit true => "true"
  | .bit false => "false"
  | .double x => constant x
  | .int k => toString k
  | .null => "null"
  | .text s => textRef n.texts s
  | .param name => localName name
  | .cell c => localName c.name
  | .reg r => s!"%{n.regs[r]?.getD 0}"

def BitOp.name : BitOp → String
  | .and => "and"
  | .or => "or"
  | .xor => "xor"

def FloatOp.name : FloatOp → String
  | .add => "fadd"
  | .sub => "fsub"
  | .mul => "fmul"
  | .div => "fdiv"

def FloatTest.name : FloatTest → String
  | .oeq => "oeq"
  | .one => "one"
  | .ogt => "ogt"
  | .olt => "olt"
  | .uno => "uno"

def Instr.render (n : Numbering) (i : Instr) : String :=
  let put (o : Operand) := o.render n
  match i with
  | .alloca ty => s!"alloca {ty.text}"
  | .load ty p => s!"load {ty.text}, {ty.text}* {put p}"
  | .select ty c a b => s!"select i1 {put c}, {ty.text} {put a}, {ty.text} {put b}"
  | .bits op a b => s!"{op.name} i1 {put a}, {put b}"
  | .add a b => s!"add i32 {put a}, {put b}"
  | .atLeast a b => s!"icmp sge i32 {put a}, {put b}"
  | .compare test a b => s!"fcmp {test.name} double {put a}, {put b}"
  | .arith op a b => s!"{op.name} double {put a}, {put b}"
  | .toDouble bit => s!"uitofp i1 {put bit} to double"
  | .first size p =>
    let ty := (Ty.array size .i8).text
    s!"getelementptr {ty}, {ty}* {put p}, i32 0, i32 0"
  | .printf format a => s!"call i32 (i8*, ...) @printf(i8* {put format}, i8* {put a})"
  | .snprintf p size format precision v =>
    s!"call i32 (i8*, i64, i8*, ...) @snprintf(i8* {put p}, i64 {size}, i8* {put format}, " ++
      s!"i32 {put precision}, double {put v})"
  | .strtod p => s!"call double @strtod(i8* {put p}, i8** null)"

def Effect.render (n : Numbering) (e : Effect) : String :=
  match e with
  | .store ty v p => s!"store {ty.text} {v.render n}, {ty.text}* {p.render n}"
  | .print isBool num => s!"call void @stride.print(i1 {isBool.render n}, double {num.render n})"
  | .trap message => s!"call void @stride.trap(i8* {message.render n})"
  | .exit status => s!"call void @exit(i32 {status})"

def Jump.render (n : Numbering) (j : Jump) : String :=
  match j with
  | .goto l => s!"br label %{l.text}"
  | .branch c yes no => s!"br i1 {c.render n}, label %{yes.text}, label %{no.text}"
  | .ret none => "ret void"
  | .ret (some status) => s!"ret i32 {status}"
  | .unreachable => "unreachable"

def Line.render (n : Numbering) : Line → String
  | .label l => l.text ++ ":"
  | .reserve c => s!"\t{localName c.name} = alloca {c.part.ty.text}"
  | .set r i => s!"\t{(Operand.reg r).render n} = {i.render n}"
  | .act e => "\t" ++ e.render n
  | .jump j => "\t" ++ j.render n

def Line.reg? : Line → Option Nat
  | .set r _ => some r
  | _ => none

/-- The position of every register in the listing. -/
def registerNumbers (listing : List BasicBlock) : Array Nat :=
  let order := listing.flatMap fun b => b.lines.filterMap Line.reg?
  order.zipIdx.foldl (fun numbers (r, k) => numbers.setIfInBounds r k)
    (Array.replicate order.length 0)

def BasicBlock.render (n : Numbering) (b : BasicBlock) : String :=
  "\n".intercalate ((Line.label b.label :: b.lines).map (·.render n))

def Function.render (texts : List String) (f : Function) : String :=
  let listing := f.listing
  let n : Numbering := ⟨texts, registerNumbers listing⟩
  let result := match f.result with
    | some ty => ty.text
    | none => "void"
  let params := ", ".intercalate (f.params.map fun (ty, name) => s!"{ty.text} {localName name}")
  s!"define {result} @{f.name}({params}) \x7b\n" ++
    "\n\n".intercalate (listing.map (·.render n)) ++ "\n\x7d\n"

/-- The messages of a function, in the order in which it was made. -/
def Function.messages (f : Function) : List String := f.lines.filterMap fun
  | .act (.trap (.text s)) => some s
  | _ => none

/-- All texts of a program, no text twice. -/
def textsOf (program : Function) : List String := (Builtin.texts ++ program.messages).eraseDups

/-- A text in storage of its own. -/
structure Global where
  name : String
  size : Nat
  text : String

def globals (texts : List String) : List Global :=
  texts.zipIdx.map fun (s, k) => ⟨textName k, textSize s, s⟩

def Global.render (g : Global) : String :=
  s!"@{g.name} = constant {(Ty.array g.size .i8).text} c\"{quoteBytes g.text}\\00\"\n"

/-- What the code expects from outside. -/
def externals : List String := [
  "declare i32 @printf(i8* %format, ...)\n",
  "declare i32 @snprintf(i8* %buf, i64 %size, i8* %format, ...)\n",
  "declare double @strtod(i8* %str, i8** %end)\n",
  "declare void @exit(i32 %status)\n"]

/-- The listing of a whole program. -/
def listing (program : Function) : String :=
  let texts := textsOf program
  let functions := [Builtin.print, Builtin.trap, program].map (·.render texts)
  "\n".intercalate
    (String.join ((globals texts).map Global.render) :: externals ++ functions)

end LetWhile.Code
