import DeclaredMethods.Proofs.Delegation.Candidates
import DeclaredMethods.Proofs.RoundTrip.Methods
import DeclaredMethods.Proofs.Validity.Definitions
import DeclaredMethods.Proofs.Validity.Flattening

/-!
# Signatures of forwarded methods can be read back

The signatures of a forwarded method are the texts of the overloads that were found for it. If the
declarations are written in plain form, every such text is read as a method type with the same text,
as long as the overload is clear. Replacing type parameters does not keep types clear: it can put an
optional type into another one, and the text of that is not accepted.
-/

namespace DeclaredMethods

namespace Signature

/-- The text of a plain and clear method type is read as a method type with that text. -/
theorem MethodType.Plain.exists_parse {method : MethodType} (h : method.Plain)
    (hclear : method.Clear) :
    ∃ form, parseMethodType method.text = .ok form ∧ form.text = method.text := by
  obtain ⟨form, hcanonical, htext⟩ := h.exists_canonical hclear
  have hlexes := form.lexes hcanonical.typeParams hcanonical.params
    (fun type htype ↦ (hcanonical.types type htype).tokenized hcanonical.typeParams) [] rfl
  rw [List.append_nil, pieces_nil, List.append_nil] at hlexes
  refine ⟨form, ?_, htext⟩
  rw [← htext]
  exact parseAll_of_reads hlexes (hcanonical.reads.bind ((reads_expectEnd _).bind (.pure _ _)))

end Signature

open Signature

/-- A signature of a forwarded method is untyped, or the text of an overload that was found. -/
theorem mem_delegationSignatures {source : DefinitionSource} {request : Delegation}
    {signature : String} (h : signature ∈ delegationSignatures source request) :
    signature = untypedSignature ∨
      ∃ name ∈ candidateNames (targetTypes source request),
        ∃ method ∈ (searchMethod source name request.method).found, method.text = signature := by
  rw [delegationSignatures] at h
  dsimp only at h
  split at h
  · exact .inl (List.mem_singleton.1 h)
  · split at h
    · exact .inl (List.mem_singleton.1 h)
    · obtain ⟨method, hmethod, htext⟩ := List.mem_map.1 (mem_distinct.1 h).1
      obtain ⟨name, hname, hfound⟩ := List.mem_flatMap.1 hmethod
      exact .inr ⟨name, hname, method, hfound, htext⟩

/-- Whatever plain signature texts are loaded, each signature of a forwarded method is accepted, and
read as a method type with the same text, unless it is the text of an overload that is not clear. -/
theorem delegationSignatures_accepted (sources : List String) (env : Environment)
    (hplain : ∀ source ∈ sources, isPlainSource source = true)
    (hload : sources.foldlM Environment.load .empty = .ok env) (request : Delegation) :
    ∀ signature ∈ delegationSignatures env.definition request,
      (∃ method, parseMethodType signature = .ok method ∧ method.text = signature) ∨
      ∃ name ∈ candidateNames (targetTypes env.definition request),
        ∃ method ∈ (searchMethod env.definition name request.method).found,
          method.text = signature ∧ ¬method.Clear := by
  intro signature hsignature
  have henv : env.Plain := Environment.Plain.empty.foldlM_load hplain hload
  rcases mem_delegationSignatures hsignature with rfl | ⟨name, hname, method, hmethod, rfl⟩
  · exact .inl ⟨.returning .any, rfl, rfl⟩
  · by_cases hclear : method.Clear
    · exact .inl ((henv.searchMethod name request.method method hmethod).exists_parse hclear)
    · exact .inr ⟨name, hname, method, hmethod, rfl, hclear⟩

/-- An inherited generic method, whose class has a union with a nested class as its argument. -/
theorem delegationSignatures_accepted_of_inherited :
    ∃ sources env, ∃ request : Delegation, ∃ signature,
      sources = ["class Box[T] def get: [U] (U, ?Array[T]) -> (T | U)? end",
        "module Shop class Item end class Shelf < Box[Item | nil] end " ++
          "class Holder def shelf: () -> Shelf? end end"] ∧
      (∀ source ∈ sources, isPlainSource source = true) ∧
      sources.foldlM Environment.load .empty = .ok env ∧
      request = ⟨⟨["Shop", "Holder"]⟩, "shelf", "get"⟩ ∧
      signature = "[U] (U, ?Array[::Shop::Item | nil]) -> (::Shop::Item | nil | U)?" ∧
      delegationSignatures env.definition request = [signature] ∧
      ((∃ method, parseMethodType signature = .ok method ∧ method.text = signature) ∨
        ∃ name ∈ candidateNames (targetTypes env.definition request),
          ∃ method ∈ (searchMethod env.definition name request.method).found,
            method.text = signature ∧ ¬method.Clear) := by
  let sources : List String :=
    ["class Box[T] def get: [U] (U, ?Array[T]) -> (T | U)? end",
      "module Shop class Item end class Shelf < Box[Item | nil] end " ++
        "class Holder def shelf: () -> Shelf? end end"]
  let request : Delegation := ⟨⟨["Shop", "Holder"]⟩, "shelf", "get"⟩
  let signature : String := "[U] (U, ?Array[::Shop::Item | nil]) -> (::Shop::Item | nil | U)?"
  have hplain : ∀ source ∈ sources, isPlainSource source = true := by decide +kernel
  have hsignatures : (sources.foldlM Environment.load .empty).toOption.map
      (fun env ↦ delegationSignatures env.definition request) = some [signature] := by
    decide +kernel
  obtain ⟨env, hload, hsignature⟩ := exists_ok_of_map_toOption hsignatures
  refine ⟨sources, env, request, signature, rfl, hplain, hload, rfl, rfl, hsignature, ?_⟩
  refine delegationSignatures_accepted sources env hplain hload request signature ?_
  rw [hsignature]
  exact List.mem_singleton_self signature

/-- An optional type parameter that stands for an optional type: the declarations are plain, and the
text of the only signature is not accepted. -/
theorem delegationSignatures_optional_of_optional :
    ∃ env source error,
      source = "class Box[T]\n  def get: () -> T?\nend\nclass Maybe < Box[String?]\nend\n" ++
        "class Holder\n  def box: () -> Maybe\nend\n" ∧
      isPlainSource source = true ∧ Environment.empty.load source = .ok env ∧
      delegationSignatures env.definition ⟨⟨["Holder"]⟩, "box", "get"⟩ = ["() -> String??"] ∧
      parseMethodType "() -> String??" = .error error := by
  let source : String :=
    "class Box[T]\n  def get: () -> T?\nend\nclass Maybe < Box[String?]\nend\n" ++
      "class Holder\n  def box: () -> Maybe\nend\n"
  have hplain : isPlainSource source = true := by decide +kernel
  have hsignatures : (Environment.empty.load source).toOption.map
      (fun env ↦ delegationSignatures env.definition ⟨⟨["Holder"]⟩, "box", "get"⟩) =
        some ["() -> String??"] := by
    decide +kernel
  have hrejected : (parseMethodType "() -> String??").isOk = false := by decide +kernel
  cases hparse : parseMethodType "() -> String??" with
  | ok method =>
    rw [hparse] at hrejected
    cases hrejected
  | error error =>
    obtain ⟨env, hload, hsignature⟩ := exists_ok_of_map_toOption hsignatures
    exact ⟨env, source, error, rfl, hplain, hload, hsignature, rfl⟩

end DeclaredMethods
