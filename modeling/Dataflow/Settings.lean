import Dataflow.Number.Word
import Dataflow.Pass.Optimizer

/-!
Settings that come as texts, by name. A setting that is missing or cannot be read leaves the
default.
-/

namespace Dataflow

-----------------------------------------------------------------------------------------
-- Texts
-----------------------------------------------------------------------------------------

namespace SettingText

/-- The white space that may stand around a setting: everything that Unicode counts as such. -/
def isSpace (char : Char) : Bool :=
  (9 ≤ char.toNat && char.toNat ≤ 13) || (0x2000 ≤ char.toNat && char.toNat ≤ 0x200a)
    || [0x20, 0x85, 0xa0, 0x1680, 0x2028, 0x2029, 0x202f, 0x205f, 0x3000].contains char.toNat

/-- Drops the white space at both ends. -/
def trim (text : List Char) : List Char :=
  ((text.dropWhile isSpace).reverse.dropWhile isSpace).reverse

/-- The small letter of a capital one from A to Z. -/
def lower (char : Char) : Char :=
  if 'A' ≤ char ∧ char ≤ 'Z' then Char.ofNat (char.toNat + 32) else char

/-- A switch: some words turn it on, a blank text is none, and everything else turns it off. -/
def bool? (text : String) : Option Bool :=
  let word := trim text.toList
  if word.isEmpty then none
  else some (["1", "true", "yes", "on"].contains (String.ofList (word.map lower)))

/-- A number in decimal digits. -/
def digits? : List Char → Option Nat
  | [] => none
  | chars =>
    if chars.all Char.isDigit then
      some (chars.foldl (fun value digit => 10 * value + (digit.toNat - 48)) 0)
    else
      none

/-- A size, which may have a plus sign. -/
def size? (text : String) : Option Nat :=
  let number :=
    match trim text.toList with
    | '+' :: chars => digits? chars
    | chars => digits? chars
  number.filter (· < sizeLimit)

end SettingText

-----------------------------------------------------------------------------------------
-- Settings
-----------------------------------------------------------------------------------------

/-- The settings. -/
structure Settings where
  preRounds : Option Nat
  postRounds : Option Nat
  /-- Whether passes are summed up in the log. -/
  passStats : Bool
  /-- Whether values are checked for numbers that are not finite. -/
  checkFinite : Bool
  /-- Whether compiled programs are kept. -/
  compileCache : Bool
  deriving DecidableEq

namespace Settings

/-- The settings that stand if nothing else is said. -/
def standard : Settings := ⟨none, none, false, false, true⟩

/-- The settings that some variables make. -/
def ofVariables (entries : List (String × String)) : Settings where
  preRounds := (entries.lookup "TGRAPH_OPT_PRE_ITERS").bind SettingText.size?
  postRounds := (entries.lookup "TGRAPH_OPT_POST_ITERS").bind SettingText.size?
  passStats := ((entries.lookup "TGRAPH_PASS_STATS").bind SettingText.bool?).getD false
  checkFinite := ((entries.lookup "TGRAPH_CHECK_FINITE").bind SettingText.bool?).getD false
  compileCache := ((entries.lookup "TGRAPH_COMPILE_CACHE").bind SettingText.bool?).getD true

/-- The configuration of optimizers. -/
def optimizeConfig (settings : Settings) : OptimizeConfig where
  preRounds := settings.preRounds.getD OptimizeConfig.standard.preRounds
  postRounds := settings.postRounds.getD OptimizeConfig.standard.postRounds
  rewriteLimit := OptimizeConfig.standard.rewriteLimit

end Settings

end Dataflow
