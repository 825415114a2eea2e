import MessageTemplate.Log.Error
import MessageTemplate.Settings.Basic
import MessageTemplate.Text.Class

/-! # Log filters

A log filter is a list of directives between commas. A directive is a level, a target, or a target
with a level behind an equals sign. Directives may be empty. -/

namespace MessageTemplate

namespace LogFilter

open Text

/-- Whether a text names a level, by a word in any case or by a digit. -/
def isLevel (text : List Char) : Bool :=
  ["off", "error", "warn", "info", "debug", "trace", "0", "1", "2", "3", "4", "5"].contains
    (String.ofList (text.map Char.toLower))

/-- Characters of a target. -/
def isTargetChar (c : Char) : Bool :=
  isWordChar c || c = ':' || c = '-'

/-- Whether a text is a directive. The level behind a target may be left out. -/
def isDirective (text : List Char) : Bool :=
  let target := text.takeWhile isTargetChar
  !target.isEmpty &&
    match text.dropWhile isTargetChar with
    | [] => true
    | '=' :: level => level.isEmpty || isLevel level
    | _ => false

/-- Whether a text is a list of directives. -/
def isValid (text : String) : Bool :=
  ((text.toList.splitOn ',').filter fun part => !part.isEmpty).all isDirective

end LogFilter

/-- Sets the log up, unless its filter cannot be read or there is a log already. -/
def LogSettings.install (settings : LogSettings) (alreadyInstalled : Bool) : Except LogError Unit :=
  if !LogFilter.isValid settings.level then .error (.invalidFilter settings.level)
  else if alreadyInstalled then .error .alreadyInstalled
  else .ok ()

end MessageTemplate
