import AcpltKs.Plt.String
import AcpltKs.Result

/-! Names as they go over the wire: special characters are represented by their hexadecimal value
behind a percent sign. -/
namespace AcpltKs

abbrev percentChar : UInt8 := 37

def ksIsValidChar (c : UInt8) : Bool := isalnum c || c == 95

/-- The three characters for `c`. A character is signed, so the shift brings in ones. -/
def ksToPercent (c : UInt8) : KsString :=
  let d : UInt32 := c.toInt8.toInt32.toUInt32
  let upper := d >>> 4
  let lower := d % 16
  [percentChar, upper.toUInt8 + (if upper < 10 then 48 else 55),
    lower.toUInt8 + (if lower < 10 then 48 else 55)]

def ksStringToPercent (org : KsString) : KsString :=
  org.flatMap fun c => if ksIsValidChar c then [c] else ksToPercent c

def isxdigit (c : UInt8) : Bool :=
  (48 ≤ c && c ≤ 57) || (65 ≤ c && c ≤ 70) || (97 ≤ c && c ≤ 102)

/-- The value of a hexadecimal digit. -/
def xdigitValue (c : UInt8) : UInt8 :=
  if c ≤ 57 then c - 48 else if c ≤ 70 then c - 55 else c - 87

/-- The character that two hexadecimal digits stand for, else the null character. -/
def ksFromPercent : List UInt8 → UInt8
  | c₁ :: c₂ :: _ =>
      if isxdigit c₁ && isxdigit c₂ then (xdigitValue c₁ <<< 4) + xdigitValue c₂ else 0
  | _ => 0

/-- Convert the percent signs and what is behind them; nothing if one does not stand for a
character. -/
def fromPercent : KsString → Option KsString
  | [] => some []
  | c :: s =>
      if c = percentChar then
        match s with
        | c₁ :: c₂ :: s =>
            if ksFromPercent [c₁, c₂] ≠ 0 then (fromPercent s).map (ksFromPercent [c₁, c₂] :: ·)
            else none
        | _ => none
      else (fromPercent s).map (c :: ·)

def ksStringFromPercent (org : KsString) : Except KsResultCode KsString :=
  match fromPercent org with
  | some retval => .ok retval
  | none => .error .badName

end AcpltKs
