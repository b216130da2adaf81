import LlmOperator.Admission.Resolution
import LlmOperator.Api.Conversion
import LlmOperator.Backend.Arguments
import LlmOperator.Backend.Labels
import LlmOperator.Cache.ColdHit
import LlmOperator.Cache.Contract
import LlmOperator.Cache.Damage
import LlmOperator.Cache.FilesRestore
import LlmOperator.Cache.Isolation
import LlmOperator.Cache.Keys
import LlmOperator.Cache.Policy
import LlmOperator.Controller.ActiveFlags
import LlmOperator.Controller.Cancellation
import LlmOperator.Controller.Deletion
import LlmOperator.Controller.Exclusive
import LlmOperator.Controller.FailedVisible
import LlmOperator.Controller.Ordering.Reconcile
import LlmOperator.Controller.Ownership
import LlmOperator.Controller.Rollout
import LlmOperator.Controller.Serving
import LlmOperator.Controller.Started
import LlmOperator.Controller.StatusLevels
import LlmOperator.Controller.Watches
import LlmOperator.Controller.WorkloadKept
import LlmOperator.Migration.ConfigMap
import LlmOperator.Proxy.Cards
import LlmOperator.Proxy.Coalescing
import LlmOperator.Proxy.Discovery
import LlmOperator.Proxy.Hermes
import LlmOperator.Proxy.HermesBootstrap
import LlmOperator.Proxy.Overlap
import LlmOperator.Proxy.OverlayNumbers
import LlmOperator.Proxy.Published
import LlmOperator.Proxy.Verdict
