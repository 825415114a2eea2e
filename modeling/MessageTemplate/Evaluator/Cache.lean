import MessageTemplate.Evaluator.Basic

/-! # Evaluators with a cache

A template language reads sources and renders what it has read. The evaluator of a language keeps
what it has read by source, up to a capacity; when the cache is full it is emptied before the next
entry. Refused sources are not kept. The lemmas say that a cache never grows above its capacity
and holds nothing but what the language reads. Requests to one evaluator share its cache. -/

namespace MessageTemplate

/-- A template language: how a source is read, and how what has been read is rendered. -/
structure TemplateLanguage (τ : Type) where
  read : (source : String) → Except String τ
  render : (template : τ) → (data : Json) → Except EvaluatorError String

/-- The templates that have been read, by source. -/
structure TemplateCache (τ : Type) where
  entries : List (String × τ)

namespace TemplateCache

variable {τ : Type}

/-- Nothing has been read. -/
def empty : TemplateCache τ := ⟨[]⟩

/-- The number of cached templates. -/
def size (cache : TemplateCache τ) : Nat := cache.entries.length

/-- The template that is cached for a source. -/
def find? (cache : TemplateCache τ) (source : String) : Option τ := cache.entries.lookup source

/-- Keeps the template of a source that is not cached, unless the capacity is zero. -/
def store (cache : TemplateCache τ) (capacity : Nat) (source : String) (template : τ) :
    TemplateCache τ :=
  if capacity = 0 then cache
  else if cache.size < capacity then ⟨(source, template) :: cache.entries⟩
  else ⟨[(source, template)]⟩

/-- A cache never grows above its capacity. -/
theorem size_store_le {cache : TemplateCache τ} {capacity : Nat} (fits : cache.size ≤ capacity)
    (source : String) (template : τ) : (cache.store capacity source template).size ≤ capacity := by
  unfold store
  split
  · exact fits
  · split
    · next room => exact room
    · simp only [size, List.length_singleton]
      omega

/-- What is in a cache after an entry is kept was there before or is the entry. -/
theorem mem_of_mem_store {cache : TemplateCache τ} {capacity : Nat} {source : String}
    {template : τ} {entry : String × τ}
    (member : entry ∈ (cache.store capacity source template).entries) :
    entry = (source, template) ∨ entry ∈ cache.entries := by
  unfold store at member
  split at member
  · exact .inr member
  · split at member
    · exact List.mem_cons.1 member
    · exact .inl (List.mem_singleton.1 member)

/-- A cached template stands among the entries under its source. -/
theorem mem_of_find? {cache : TemplateCache τ} {source : String} {template : τ}
    (found : cache.find? source = some template) : (source, template) ∈ cache.entries := by
  unfold find? at found
  generalize cache.entries = entries at found ⊢
  induction entries with
  | nil => simp at found
  | cons entry rest ih =>
    obtain ⟨other, kept⟩ := entry
    rw [List.lookup_cons] at found
    split at found
    · next same =>
      obtain rfl := eq_of_beq same
      obtain rfl := Option.some.inj found
      exact List.mem_cons_self
    · exact List.mem_cons_of_mem _ (ih found)

end TemplateCache

namespace TemplateLanguage

variable {τ : Type}

/-- The template of a source, from the cache if it is there. -/
def template (language : TemplateLanguage τ) (capacity : Nat) (source : String) :
    StateM (TemplateCache τ) (Except EvaluatorError τ) := fun cache =>
  match cache.find? source with
  | some template => (.ok template, cache)
  | none =>
    match language.read source with
    | .ok template => (.ok template, cache.store capacity source template)
    | .error message => (.error (.parse message), cache)

/-- Reads a source without rendering it. -/
def parse (language : TemplateLanguage τ) (capacity : Nat) (source : String) :
    StateM (TemplateCache τ) (Except EvaluatorError Unit) := do
  match ← language.template capacity source with
  | .ok _ => return .ok ()
  | .error e => return .error e

/-- The evaluator of a language, with a cache of some capacity. -/
def evaluator (language : TemplateLanguage τ) (capacity : Nat) :
    Evaluator (TemplateCache τ) where
  render source data := do
    match ← language.template capacity source with
    | .ok template => return language.render template data
    | .error e => return .error e
  check source := language.parse capacity source

end TemplateLanguage

/-! ## Requests -/

/-- What an evaluator is asked, one request at a time: to read a source, to check one, to render one
against data, or for the elements of a collection. -/
inductive Request where
  | parse (source : String)
  | check (source : String)
  | render (source : String) (data : Json)
  | resolve (expression : String) (data : Json)

/-- What comes of a request. -/
inductive Reply where
  | accepted (outcome : Except EvaluatorError Unit)
  | rendered (outcome : Except EvaluatorError String)
  | resolved (outcome : Except EvaluatorError (List Json))

namespace TemplateLanguage

variable {τ : Type}

/-- Answers a request. -/
def answer (language : TemplateLanguage τ) (capacity : Nat) :
    Request → StateM (TemplateCache τ) Reply
  | .parse source => Reply.accepted <$> language.parse capacity source
  | .check source => Reply.accepted <$> (language.evaluator capacity).check source
  | .render source data => Reply.rendered <$> (language.evaluator capacity).render source data
  | .resolve expression data =>
    Reply.resolved <$> (language.evaluator capacity).resolveCollection expression data

/-- Answers requests one after the other, with one cache. -/
def serve (language : TemplateLanguage τ) (capacity : Nat) (requests : List Request) :
    StateM (TemplateCache τ) (List Reply) :=
  requests.mapM (language.answer capacity)

end TemplateLanguage

end MessageTemplate
