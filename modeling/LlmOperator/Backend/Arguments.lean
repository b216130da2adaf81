import LlmOperator.Backend.Driver

/-!
# The arguments of a runtime

The command line of a validated model is what the model asks for, followed by the options of the
controller. Which options those are is stated here per kind of backend, away from the tables of the
drivers, and no argument of the model sets one of them.
-/

namespace LlmOperator.Backend

open Api Data.GoString

/-- A flag of a command line with the values after it. -/
structure LaunchOption where
  flag : String
  values : List String

section

variable (kind : BackendType) (model : LLMModel)

def LaunchOption.words (o : LaunchOption) : List String := o.flag :: o.values

/-- The argument `arg` sets `flag`, on its own or with a value after an equals sign. -/
def Sets (arg flag : String) : Prop := arg = flag ∨ hasPrefix arg (flag ++ "=") = true

/-! ## The options of the controller -/

def revisionOptions : List LaunchOption :=
  if model.spec.model.revision ≠ "" then [⟨"--revision", [model.spec.model.revision]⟩] else []

/-- What is served, and under which name. -/
def identityOptions : List LaunchOption :=
  match kind with
  | .vllm => [⟨"--model", [model.spec.model.source]⟩] ++ revisionOptions model ++
      [⟨"--served-model-name", [model.spec.model.name]⟩]
  | .llamaCpp => [⟨"-m", [model.spec.model.source]⟩, ⟨"--alias", [model.spec.model.name]⟩]
  | .sglang => [⟨"--model-path", [model.spec.model.source]⟩] ++ revisionOptions model ++
      [⟨"--served-model-name", [model.spec.model.name]⟩]
  | .other _ => []

/-- An option that is there when the model selects a value for it. -/
def selectedOption (flag value : String) : List LaunchOption :=
  if value ≠ "" then [⟨flag, [value]⟩] else []

def templateOptions : List LaunchOption :=
  if model.spec.serving.chatTemplate.isSome then
    match kind with
    | .vllm => [⟨"--chat-template", ["/etc/llm-templates/chat-template.jinja"]⟩]
    | .llamaCpp => [⟨"--jinja", []⟩,
        ⟨"--chat-template-file", ["/etc/llm-templates/chat-template.jinja"]⟩]
    | _ => []
  else []

/-- The controller's part of a command line. -/
def controllerOptions : List LaunchOption :=
  identityOptions kind model ++
    selectedOption "--tool-call-parser" model.spec.serving.toolCallParser ++
    selectedOption "--reasoning-parser" model.spec.serving.reasoningParser ++
    templateOptions kind model

end

/-! ## What validation rules out -/

theorem not_sets_of_containsFlag {args : List String} {flag : String}
    (h : containsFlag args flag = false) {arg : String} (harg : arg ∈ args) : ¬Sets arg flag := by
  intro hsets
  have harg := List.any_eq_false.mp h arg harg
  rw [Bool.or_eq_true, beq_iff_eq] at harg
  exact harg hsets

theorem not_sets_of_validateArgs {d : RuntimeDriver} {args : List String}
    (h : d.validateArgs args = .ok ()) {flag arg : String} (hflag : flag ∈ d.injectedFlags)
    (harg : arg ∈ args) : ¬Sets arg flag := by
  unfold RuntimeDriver.validateArgs at h
  split at h
  · cases h
  · rename_i hnone
    intro hsets
    refine List.find?_eq_none.mp hnone arg harg (List.any_eq_true.mpr ⟨flag, hflag, ?_⟩)
    rw [Bool.or_eq_true, Bool.or_eq_true, beq_iff_eq]
    exact .inl hsets

section Drivers

variable {kind : BackendType} {d : RuntimeDriver} (hd : driverFor kind = .ok d)
include hd

theorem build_eq (model : LLMModel) (args : List String) :
    d.build model args = args ++ (identityOptions kind model).flatMap LaunchOption.words := by
  cases kind <;> cases hd <;>
    simp only [vllmDriver, llamaCPPDriver, sglangDriver, identityOptions, revisionOptions,
      List.append_assoc] <;> (try split) <;> rfl

theorem flag_mem_injectedFlags {model : LLMModel} {o : LaunchOption}
    (ho : o ∈ identityOptions kind model) : o.flag ∈ d.injectedFlags := by
  have hrevision : o ∈ revisionOptions model → o.flag = "--revision" := by
    unfold revisionOptions
    split
    · intro h
      rw [List.mem_singleton.mp h]
    · intro h
      cases h
  cases kind with
  | vllm =>
    cases hd
    simp only [identityOptions, List.mem_append, List.mem_singleton] at ho
    rcases ho with (rfl | ho) | rfl
    · simp [vllmDriver]
    · simp [vllmDriver, hrevision ho]
    · simp [vllmDriver]
  | llamaCpp =>
    cases hd
    simp only [identityOptions, List.mem_cons, List.not_mem_nil, or_false] at ho
    rcases ho with rfl | rfl <;> simp [llamaCPPDriver]
  | sglang =>
    cases hd
    simp only [identityOptions, List.mem_append, List.mem_singleton] at ho
    rcases ho with (rfl | ho) | rfl
    · simp [sglangDriver]
    · simp [sglangDriver, hrevision ho]
    · simp [sglangDriver]
  | other s => cases hd

theorem toolCallFlag_eq (h : d.toolCallParser = true) : d.toolCallFlag = "--tool-call-parser" := by
  cases kind <;> cases hd <;> first | rfl | cases h

theorem reasoningFlag_eq (h : d.reasoningParser = true) :
    d.reasoningFlag = "--reasoning-parser" := by
  cases kind <;> cases hd <;> first | rfl | cases h

theorem chatTemplateArgs_eq (model : LLMModel) :
    (if model.spec.serving.chatTemplate.isSome then d.chatTemplateArgs else []) =
      (templateOptions kind model).flatMap LaunchOption.words := by
  unfold templateOptions
  split
  · cases kind <;> cases hd <;> rfl
  · rfl

theorem flag_mem_chatTemplateFlags {model : LLMModel} {o : LaunchOption}
    (ho : o ∈ templateOptions kind model) :
    model.spec.serving.chatTemplate.isSome = true ∧ o.flag ∈ d.chatTemplateFlags := by
  unfold templateOptions at ho
  split at ho
  · rename_i hsome
    refine ⟨hsome, ?_⟩
    cases kind <;> cases hd <;>
      simp only [List.mem_cons, List.not_mem_nil, or_false] at ho
    · rw [ho]
      decide
    · rcases ho with rfl | rfl <;> decide
  · cases ho

end Drivers

theorem mem_selectedOption {flag value : String} {o : LaunchOption}
    (ho : o ∈ selectedOption flag value) : value ≠ "" ∧ o.flag = flag := by
  unfold selectedOption at ho
  split at ho
  · rw [List.mem_singleton.mp ho]
    exact ⟨‹_›, rfl⟩
  · cases ho

/-- A selected option as `EffectiveArgs` appends it. -/
theorem selectedOption_eq {driverFlag flag value : String}
    (h : value ≠ "" → driverFlag = flag) (hne : flag ≠ "") :
    (if value ≠ "" ∧ driverFlag ≠ "" then [driverFlag, value] else []) =
      (selectedOption flag value).flatMap LaunchOption.words := by
  unfold selectedOption
  by_cases hvalue : value ≠ ""
  · rw [h hvalue, if_pos ⟨hvalue, hne⟩, if_pos hvalue]
    rfl
  · rw [if_neg fun hboth => hvalue hboth.1, if_neg hvalue]
    rfl

/-- The command line of a validated model is the model's own arguments, unchanged, and then the
options of the controller; and none of the model's arguments sets one of those options. -/
theorem effectiveArgs_not_shadowed {kind : BackendType} {d : RuntimeDriver} {model : LLMModel}
    (hd : driverFor kind = .ok d) (hvalid : d.validate model = .ok ()) :
    d.effectiveArgs model = model.spec.serving.args ++
        (controllerOptions kind model).flatMap LaunchOption.words ∧
      ∀ o ∈ controllerOptions kind model, ∀ arg ∈ model.spec.serving.args, ¬Sets arg o.flag := by
  have hserving := RuntimeDriver.checkedServing hvalid
  constructor
  · have htool := selectedOption_eq (fun h => toolCallFlag_eq hd (hserving.toolCallParser h).1)
      (by decide)
    have hreasoning := selectedOption_eq
      (fun h => reasoningFlag_eq hd (hserving.reasoningParser h).1) (by decide)
    unfold RuntimeDriver.effectiveArgs controllerOptions
    simp only [build_eq hd, htool, hreasoning, chatTemplateArgs_eq hd, List.flatMap_append,
      List.append_assoc]
  · intro o ho arg harg
    simp only [controllerOptions, List.mem_append] at ho
    rcases ho with ((ho | ho) | ho) | ho
    · exact not_sets_of_validateArgs hserving.args (flag_mem_injectedFlags hd ho) harg
    · obtain ⟨hselected, hflag⟩ := mem_selectedOption ho
      have hchecked := hserving.toolCallParser hselected
      rw [hflag, ← toolCallFlag_eq hd hchecked.1]
      exact not_sets_of_containsFlag hchecked.2 harg
    · obtain ⟨hselected, hflag⟩ := mem_selectedOption ho
      have hchecked := hserving.reasoningParser hselected
      rw [hflag, ← reasoningFlag_eq hd hchecked.1]
      exact not_sets_of_containsFlag hchecked.2 harg
    · obtain ⟨hselected, hflag⟩ := flag_mem_chatTemplateFlags hd ho
      exact not_sets_of_containsFlag ((hserving.chatTemplate hselected).2 _ hflag) harg

/-- A vLLM model that selects every option there is. -/
def qwenModel : LLMModel where
  name := "qwen"
  generation := 1
  resourceVersion := 1
  spec :=
    { model := ⟨"qwen", "org/qwen", "0123456789abcdef0123456789abcdef01234567", ""⟩
      artifact := none
      serving := ⟨.vllm, "hermes", "qwen3", some ⟨"templates", "qwen.jinja", ""⟩,
        ["--max-model-len", "32768"]⟩
      backendRef := none }
  status := ⟨.ready, false, none, none, [], 1⟩

theorem effectiveArgs_not_shadowed_qwen :
    vllmDriver.effectiveArgs qwenModel = ["--max-model-len", "32768"] ++
        (controllerOptions .vllm qwenModel).flatMap LaunchOption.words ∧
      ∀ o ∈ controllerOptions .vllm qwenModel, ∀ arg ∈ ["--max-model-len", "32768"],
        ¬Sets arg o.flag :=
  effectiveArgs_not_shadowed rfl (by decide +kernel)

end LlmOperator.Backend
