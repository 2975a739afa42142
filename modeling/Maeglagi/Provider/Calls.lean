import Maeglagi.Provider.Anthropic
import Maeglagi.Provider.Ollama
import Maeglagi.Provider.OpenAI

/-!
# Calls of an adapter

The three adapters behind one interface. `Reads` is the condition on the exchanges under
which a call ends as expected; `Keeps` is what the Anthropic adapter needs besides so as
not to throw a good answer away.
-/

namespace Maeglagi.Provider

open Core

/-- An adapter. -/
inductive Adapter where
  | openAICompatible (a : OpenAICompatibleAdapter)
  | anthropic
  | ollama

/-- The calls of an adapter that answer with text or data. -/
inductive Call where
  | chat | structuredOutput | transcribe
  deriving DecidableEq, Repr

/-- What a call returns. -/
inductive Reply where
  | chat (r : ChatResponse)
  | structuredOutput (r : StructuredOutputResponse)
  | transcribe (r : TranscriptionResponse)

/-- What a reply of a provider says. -/
inductive Said where
  | text (t : Text)
  | data (v : Json)

namespace Adapter

variable (lib : Decoder)

/-- `capabilities` -/
def capabilities : Adapter → List String
  | .openAICompatible a => a.capabilities
  | .anthropic => AnthropicAdapter.capabilities
  | .ollama => OllamaAdapter.capabilities

/-- `chat` -/
def chat (adapter : Adapter) (model apiKey : Text) (w : Exchanges) :
    Except PyException ChatResponse :=
  match adapter with
  | .openAICompatible a => a.chat lib model apiKey w.reply
  | .anthropic => AnthropicAdapter.chat model apiKey w.reply
  | .ollama => OllamaAdapter.chat lib model w

/-- `structured_output` -/
def structuredOutput (adapter : Adapter) (model apiKey : Text) (w : Exchanges) :
    Except PyException StructuredOutputResponse :=
  match adapter with
  | .openAICompatible a => a.structuredOutput lib model apiKey w.reply
  | .anthropic => AnthropicAdapter.structuredOutput
  | .ollama => OllamaAdapter.structuredOutput lib model w

/-- `transcribe` -/
def transcribe (adapter : Adapter) (model apiKey : Text) (w : Exchanges) :
    Except PyException TranscriptionResponse :=
  match adapter with
  | .openAICompatible a => a.transcribe lib model apiKey w.reply
  | .anthropic => AnthropicAdapter.transcribe
  | .ollama => OllamaAdapter.transcribe

/-- A call of an adapter. -/
def call (adapter : Adapter) (c : Call) (model apiKey : Text) (w : Exchanges) :
    Except PyException Reply :=
  match c with
  | .chat => (adapter.chat lib model apiKey w).map .chat
  | .structuredOutput => (adapter.structuredOutput lib model apiKey w).map .structuredOutput
  | .transcribe => (adapter.transcribe lib model apiKey w).map .transcribe

/-- The provider was asked and its successful reply says it well-formed. -/
def Answers (adapter : Adapter) (c : Call) (model apiKey : Text) (w : Exchanges)
    (said : Said) : Prop :=
  match adapter, c, said with
  | .openAICompatible _, .chat, .text t =>
    KeyFits apiKey ∧ ∃ body, w.reply.Brings body ∧ Says body t
  | .openAICompatible a, .structuredOutput, .data data =>
    a.supportsStructuredOutput = true ∧ KeyFits apiKey ∧
      ∃ body t, w.reply.Brings body ∧ Says body t ∧ lib.loads t = .ok data
  | .openAICompatible a, .transcribe, .text t =>
    a.supportsTranscription = true ∧ KeyFits apiKey ∧
      ∃ body s, w.reply.Brings body ∧ body.field? "text" = some (.str s) ∧ strip s = t ∧ t ≠ []
  | .anthropic, .chat, .text t =>
    KeyFits apiKey ∧ ∃ body, w.reply.Brings body ∧ AnthropicAdapter.Says body t
  | .ollama, .chat, .text t =>
    OllamaAdapter.Asked lib model w ∧
      ∃ body, w.reply.Brings body ∧ OllamaAdapter.content body = .str t
  | .ollama, .structuredOutput, .data data =>
    OllamaAdapter.Asked lib model w ∧
      ∃ body t, w.reply.Brings body ∧ OllamaAdapter.content body = .str t ∧ lib.loads t = .ok data
  | _, _, _ => False

/-- A good answer of Anthropic comes with a usage and a model that can be read. -/
def Keeps (adapter : Adapter) (c : Call) (apiKey : Text) (w : Exchanges) : Prop :=
  match adapter, c with
  | .anthropic, .chat =>
    KeyFits apiKey → ∀ body t, w.reply.Brings body → AnthropicAdapter.Says body t →
      body.Field "usage" Json.IsObj ∧ body.Field "model" Json.IsStr
  | _, _ => True

variable {lib} {lax : Prop} {adapter : Adapter} {c : Call} {model apiKey : Text} {w : Exchanges}

end Adapter

end Maeglagi.Provider
