import MessageTemplate.Analysis.Verdict
import MessageTemplate.Example.Builder

/-! # Settings -/

namespace MessageTemplate

/-- The settings of previews: the one name that needs no namespace, the namespace of phrase
keys, the number of events of a digest step, the largest number of elements of any collection,
whether to suggest the payload namespace, and how many templates the engine keeps. -/
structure PreviewSettings where
  contentPlaceholder : String
  phraseNamespace : String
  digestEvents : Nat
  maxIterations : Nat
  suggestPayload : Bool
  cacheCapacity : Nat
  deriving DecidableEq, Repr

/-- The settings of the log: the levels that are logged, and whether lines are JSON. -/
structure LogSettings where
  level : String
  json : Bool
  deriving DecidableEq, Repr

/-- All settings. -/
structure Settings where
  preview : PreviewSettings
  log : LogSettings
  deriving DecidableEq, Repr

namespace PreviewSettings

/-- The usual settings. -/
def standard : PreviewSettings := ⟨"content", "t", 3, 50, true, 256⟩

/-- What names are judged by. -/
def analysisOptions (settings : PreviewSettings) : Analysis.Options :=
  ⟨settings.contentPlaceholder, settings.phraseNamespace, settings.suggestPayload⟩

/-- What example data is made by. -/
def exampleBuilder (settings : PreviewSettings) (now : String) : Example.Builder :=
  ⟨settings.contentPlaceholder, settings.digestEvents, settings.maxIterations, now⟩

end PreviewSettings

/-- The usual settings of the log. -/
def LogSettings.standard : LogSettings := ⟨"info", false⟩

/-- The usual settings. -/
def Settings.standard : Settings := ⟨.standard, .standard⟩

end MessageTemplate
