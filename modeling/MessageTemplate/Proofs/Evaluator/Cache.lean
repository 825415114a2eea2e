import MessageTemplate.Evaluator.Cache
import Mathlib.Data.List.Basic

/-! # A cache shows only in its size

However an evaluator has been used, its cache holds at most as many templates as its capacity, one
for each source, and each is what the language reads (`TemplateCache.Kept`). This is so at the start,
and every request keeps it and comes to the same as without a cache (`gives_answer`). So neither the
capacity nor what has been asked before changes an answer (`serve_transparent`). -/

namespace MessageTemplate

variable {τ : Type} {language : TemplateLanguage τ} {capacity : Nat}

namespace TemplateCache

variable {cache : TemplateCache τ}

/-- What holds of a cache however it has been used: it does not exceed its capacity, no source is
cached twice, and every template is what the language reads. -/
structure Kept (language : TemplateLanguage τ) (capacity : Nat) (cache : TemplateCache τ) : Prop where
  fits : cache.size ≤ capacity
  distinct : (cache.entries.map Prod.fst).Nodup
  read : ∀ source template, (source, template) ∈ cache.entries →
    language.read source = .ok template

theorem kept_empty : Kept language capacity empty :=
  ⟨Nat.zero_le capacity, List.nodup_nil, nofun⟩

theorem not_mem_of_find?_eq_none {source : String} (absent : cache.find? source = none) :
    source ∉ cache.entries.map Prod.fst := by
  intro member
  obtain ⟨⟨other, template⟩, inside, rfl⟩ := List.mem_map.mp member
  exact absurd (beq_self_eq_true other) (by simpa using List.lookup_eq_none_iff.mp absent _ inside)

/-- Keeping what the language reads for a source that is not cached. -/
theorem Kept.store (kept : Kept language capacity cache) {source : String} {template : τ}
    (absent : cache.find? source = none) (read : language.read source = .ok template) :
    Kept language capacity (cache.store capacity source template) := by
  refine ⟨size_store_le kept.fits source template, ?_, fun other found member => ?_⟩
  · unfold TemplateCache.store
    split
    · exact kept.distinct
    · split
      · exact List.nodup_cons.mpr ⟨not_mem_of_find?_eq_none absent, kept.distinct⟩
      · exact List.pairwise_singleton _ _
  · rcases mem_of_mem_store member with same | before
    · obtain ⟨rfl, rfl⟩ := Prod.mk.inj same
      exact read
    · exact kept.read other found before

end TemplateCache

namespace TemplateLanguage

open TemplateCache

/-- What a language makes of a source, as an evaluator reports it. -/
def outcome (language : TemplateLanguage τ) (source : String) : Except EvaluatorError τ :=
  (language.read source).mapError .parse

/-- What a request comes to without a cache. -/
def reply (language : TemplateLanguage τ) : Request → Reply
  | .parse source => .accepted ((language.outcome source).map fun _ => ())
  | .check source => .accepted ((language.outcome source).map fun _ => ())
  | .render source data =>
    .rendered ((language.outcome source).bind (language.render · data))
  | .resolve expression data =>
    .resolved (((language.outcome (Evaluator.collectionSource expression)).bind
      (language.render · data)).bind (Evaluator.decodeCollection expression))

/-- An action gives a result, whatever is cached, and keeps what holds of the cache. -/
def Gives {α : Type} (language : TemplateLanguage τ) (capacity : Nat)
    (action : StateM (TemplateCache τ) α) (result : α) : Prop :=
  ∀ cache, Kept language capacity cache →
    (action cache).1 = result ∧ Kept language capacity (action cache).2

section Gives

variable {α β : Type} {action : StateM (TemplateCache τ) α} {result : α}

theorem gives_pure (result : α) : Gives language capacity (pure result) result :=
  fun _ kept => ⟨rfl, kept⟩

theorem Gives.bind {next : α → StateM (TemplateCache τ) β} {final : β}
    (gives : Gives language capacity action result)
    (further : Gives language capacity (next result) final) :
    Gives language capacity (action >>= next) final := by
  intro cache kept
  obtain ⟨same, keeps⟩ := gives cache kept
  change (next (action cache).1 (action cache).2).1 = final ∧
    Kept language capacity (next (action cache).1 (action cache).2).2
  rw [same]
  exact further _ keeps

theorem Gives.map (gives : Gives language capacity action result) (f : α → β) :
    Gives language capacity (f <$> action) (f result) := by
  rw [map_eq_pure_bind]
  exact gives.bind (gives_pure (f result))

end Gives

/-- A template comes from the cache or from the language, and is the same. -/
theorem gives_template (source : String) :
    Gives language capacity (language.template capacity source) (language.outcome source) := by
  intro cache kept
  rw [template]
  cases cached : cache.find? source with
  | some template =>
    have read := kept.read source template (mem_of_find? cached)
    exact ⟨by rw [outcome, read]; rfl, kept⟩
  | none =>
    rw [outcome]
    cases read : language.read source with
    | ok template => exact ⟨rfl, kept.store cached read⟩
    | error message => exact ⟨rfl, kept⟩

theorem gives_parse (source : String) : Gives language capacity (language.parse capacity source)
    ((language.outcome source).map fun _ => ()) := by
  refine (gives_template source).bind ?_
  cases language.outcome source with
  | ok template => exact gives_pure _
  | error e => exact gives_pure _

theorem gives_render (source : String) (data : Json) :
    Gives language capacity ((language.evaluator capacity).render source data)
      ((language.outcome source).bind (language.render · data)) := by
  refine (gives_template source).bind ?_
  cases language.outcome source with
  | ok template => exact gives_pure _
  | error e => exact gives_pure _

/-- A request comes to the same as without a cache. -/
theorem gives_answer (request : Request) :
    Gives language capacity (language.answer capacity request) (language.reply request) := by
  cases request with
  | parse source => exact (gives_parse source).map _
  | check source => exact (gives_parse source).map _
  | render source data => exact (gives_render source data).map _
  | resolve expression data =>
    refine Gives.map ((gives_render _ data).bind ?_) _
    cases (language.outcome (Evaluator.collectionSource expression)).bind
        (language.render · data) with
    | ok rendered => exact gives_pure _
    | error e => exact gives_pure _

/-- Requests come to the same as without a cache, whatever has been asked before. -/
theorem gives_serve (requests : List Request) :
    Gives language capacity (language.serve capacity requests) (requests.map language.reply) := by
  rw [serve]
  induction requests with
  | nil => exact gives_pure _
  | cons request rest ih =>
    rw [List.mapM_cons]
    exact (gives_answer request).bind (ih.bind (gives_pure _))

/-- Whatever is asked of an evaluator, and in whatever order, its cache holds at most as many
templates as its capacity, one for each source, each of them what the language reads, and none for a
source that the language refuses; and every request is answered as by an evaluator without room in its
cache. -/
theorem serve_transparent (language : TemplateLanguage τ) (capacity : Nat)
    (requests : List Request) :
    (language.serve capacity requests empty).1 =
        requests.map (fun request => (language.answer 0 request empty).1) ∧
      (language.serve capacity requests empty).2.size ≤ capacity ∧
      ((language.serve capacity requests empty).2.entries.map Prod.fst).Nodup ∧
      (∀ source template,
        (source, template) ∈ (language.serve capacity requests empty).2.entries →
          language.read source = .ok template) ∧
      ∀ source message, language.read source = .error message →
        (language.serve capacity requests empty).2.find? source = none := by
  have serves : Gives language capacity (language.serve capacity requests) _ := gives_serve requests
  have alone (request : Request) : Gives language 0 (language.answer 0 request) _ :=
    gives_answer request
  obtain ⟨replies, kept⟩ := serves empty kept_empty
  refine ⟨?_, kept.fits, kept.distinct, kept.read, fun source message refused => ?_⟩
  · rw [replies]
    exact List.map_congr_left fun request _ => (alone request empty kept_empty).1.symm
  · cases cached : (language.serve capacity requests empty).2.find? source with
    | none => rfl
    | some template =>
      cases refused.symm.trans (kept.read source template (mem_of_find? cached))

end TemplateLanguage

end MessageTemplate
