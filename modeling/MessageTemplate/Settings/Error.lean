/-! # Why settings are refused -/

namespace MessageTemplate

/-- Why settings are refused: a file cannot be read, or a setting has a value of the wrong
kind. -/
inductive SettingsError where
  | unreadable (file : String)
  | badValue (setting : String)
  deriving DecidableEq, Repr

/-- The wording of an error. -/
def SettingsError.message : SettingsError → String
  | unreadable file => "file '" ++ file ++ "' cannot be read"
  | badValue setting => "setting '" ++ setting ++ "' has a value of the wrong kind"

end MessageTemplate
