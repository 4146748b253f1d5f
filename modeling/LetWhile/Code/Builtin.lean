import LetWhile.Code

/-!
The functions that every program brings along. `print` shows a value as the language does: a boolean
by its word, a number by the least number of decimals that reads back as the same double, found by
trying. `trap` reports an error and leaves.
-/
namespace LetWhile.Code.Builtin

/-- The exit status of a program that stops on an error. -/
def trapStatus : Nat := 70

def bufferSize : Nat := 1536

/-- The least positive double has this many decimals. -/
def maxPrecision : Nat := 1074

def lineFormat : Operand := .text "%s\n"

def infinity : Operand := .double (Float.ofBits 0x7FF0000000000000)

def negativeInfinity : Operand := .double (Float.ofBits 0xFFF0000000000000)

def print : Function where
  result := none
  name := "stride.print"
  params := [(.i1, "isBool"), (.double, "num")]
  lines :=
    let num := Operand.param "num"
    let buffer := Operand.reg 0
    let precision := Operand.reg 1
    [.label (.plain "entry"),
      .set 0 (.alloca (.array bufferSize .i8)),
      .set 1 (.alloca .i32),
      .act (.store .i32 (.int 0) precision),
      .jump (.branch (.param "isBool") (.plain "bool") (.plain "number")),
    .label (.plain "bool"),
      .set 2 (.compare .one num (.double 0)),
      .set 3 (.select (.pointer .i8) (.reg 2) (.text "true") (.text "false")),
      .set 4 (.printf lineFormat (.reg 3)),
      .jump (.ret none),
    .label (.plain "number"),
      .set 5 (.compare .uno num num),
      .set 6 (.compare .oeq num infinity),
      .set 7 (.compare .oeq num negativeInfinity),
      .set 8 (.select (.pointer .i8) (.reg 7) (.text "-Inf") (.text "NaN")),
      .set 9 (.select (.pointer .i8) (.reg 6) (.text "+Inf") (.reg 8)),
      .set 10 (.bits .or (.reg 6) (.reg 7)),
      .set 11 (.bits .or (.reg 5) (.reg 10)),
      .jump (.branch (.reg 11) (.plain "special") (.plain "search")),
    .label (.plain "special"),
      .set 12 (.printf lineFormat (.reg 9)),
      .jump (.ret none),
    .label (.plain "search"),
      .set 13 (.first bufferSize buffer),
      .set 14 (.load .i32 precision),
      .set 15 (.snprintf (.reg 13) bufferSize (.text "%.*f") (.reg 14) num),
      .set 16 (.strtod (.reg 13)),
      .set 17 (.compare .oeq (.reg 16) num),
      .set 18 (.atLeast (.reg 14) (.int maxPrecision)),
      .set 19 (.bits .or (.reg 17) (.reg 18)),
      .jump (.branch (.reg 19) (.plain "found") (.plain "retry")),
    .label (.plain "retry"),
      .set 20 (.add (.reg 14) (.int 1)),
      .act (.store .i32 (.reg 20) precision),
      .jump (.goto (.plain "search")),
    .label (.plain "found"),
      .set 21 (.printf lineFormat (.reg 13)),
      .jump (.ret none)]

def trap : Function where
  result := none
  name := "stride.trap"
  params := [(.pointer .i8, "msg")]
  lines :=
    [.label (.plain "entry"),
      .set 0 (.printf (.text "runtime error: %s\n") (.param "msg")),
      .act (.exit trapStatus),
      .jump .unreachable]

/-- The texts of these functions, in the order of their numbers. -/
def texts : List String :=
  ["true", "false", "%s\n", "+Inf", "-Inf", "NaN", "%.*f", "runtime error: %s\n"]

end LetWhile.Code.Builtin
