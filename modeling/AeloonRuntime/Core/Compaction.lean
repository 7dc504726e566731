import AeloonRuntime.Core.Types
import AeloonRuntime.Lib.Float

namespace AeloonRuntime

open Py

/-!
# Compaction contracts — the context budget of a run

`core/compaction.py`: the policy, the update that a compactor returns, and the test for a context
that did not fit.

The test searches the error message for regular expressions.  `re.search` is a parameter, `search`,
that is given the text of the pattern; every pattern is compiled with `re.IGNORECASE`.
-/

/-- `ContextPolicy`. -/
structure ContextPolicy where
  enabled : Bool := true
  reserveTokens : Int := 16384
  keepRecentTokens : Int := 20000

/-- `ContextUpdate`, with what the engine reads of it. -/
structure ContextUpdate where
  messages : List AgentMessage
  summary : String
  /-- `details.get("compactionEntryId")`. -/
  compactionEntryId : Json := .null
  compactionBoundaryIndex : Option Int := none

/-- `CompactionReason`, with its text. -/
inductive CompactionReason where
  | threshold
  | overflow
  | explicit
  deriving DecidableEq

/-- The text of a reason. -/
def CompactionReason.text : CompactionReason → String
  | .threshold => "threshold"
  | .overflow => "overflow"
  | .explicit => "explicit"

/-- `should_compact`. -/
def shouldCompact (contextTokens contextWindow : Int) (policy : ContextPolicy) : Bool :=
  policy.enabled && contextTokens > contextWindow - policy.reserveTokens

/-- `_OVERFLOW_PATTERNS`. -/
def overflowPatterns : List String :=
  ["prompt is too long",
    "request_too_large",
    "input is too long for requested model",
    "exceeds the context window",
    "exceeds (?:the )?(?:model'?s )?maximum context length"
      ++ "(?: of [\\d,]+ tokens?|\\s*\\([\\d,]+\\))?",
    "input token count.*exceeds the maximum",
    "maximum prompt length is \\d+",
    "reduce the length of the messages",
    "maximum context length (?:is |of )?[\\d,]+ tokens?",
    "exceeds (?:the )?maximum allowed input length of [\\d,]+ tokens?",
    "input \\([\\d,]+ tokens?\\) is longer than the model'?s context length",
    "exceeds the limit of [\\d,]+",
    "exceeds the available context size",
    "greater than the context length",
    "context window exceeds limit",
    "exceeded model token limit",
    "too large for model with [\\d,]+ maximum context length",
    "prompt has [\\d,]+ tokens?, but the configured context size is [\\d,]+ tokens?",
    "model_context_window_exceeded",
    "prompt too long; exceeded (?:max )?context length",
    "range of input length should be",
    "context[_ ]length[_ ]exceeded",
    "too many tokens",
    "token limit exceeded",
    "^4(?:00|13)\\s*(?:status code)?\\s*\\(no body\\)"]

/-- `_NON_OVERFLOW_PATTERNS`. -/
def nonOverflowPatterns : List String :=
  ["^(?:throttling error|service unavailable):",
    "rate limit",
    "too many requests",
    "throttl(?:e|ed|ing)"]

/-- `is_context_overflow`; no window is `none`. -/
def isContextOverflow (search : String → String → Bool) (message : AssistantMessage)
    (contextWindow : Option Int) : Bool :=
  let errorMessage := message.errorMessage.getD ""
  let inputTokens := message.usage.input + message.usage.cacheRead
  (message.stopReason = .error && errorMessage ≠ ""
      && !(nonOverflowPatterns.any fun pattern => search pattern errorMessage)
      && overflowPatterns.any fun pattern => search pattern errorMessage)
    || (contextWindow.any fun window => 0 < window
      && ((message.stopReason = .stop && window < inputTokens)
        || (message.stopReason = .length && message.usage.output = 0
          && geTimes99 inputTokens window.toNat)))

end AeloonRuntime
