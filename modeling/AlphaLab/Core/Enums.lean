/-
  Enumerations every package shares (`core/enums.py`, `common/order_terms.py`).
-/
import Mathlib.Data.Fintype.Basic

namespace AlphaLab

inductive OrderStatus where
  | new | pending | accepted | partiallyFilled | filled
  | cancelPending | cancelled | rejected | expired
deriving DecidableEq

instance : Fintype OrderStatus where
  elems := {.new, .pending, .accepted, .partiallyFilled, .filled, .cancelPending, .cancelled,
    .rejected, .expired}
  complete := by rintro (_ | _) <;> decide

inductive Side where
  | buy | sell
deriving DecidableEq

inductive OrderType where
  | market | limit | stop | stopLimit
deriving DecidableEq

inductive TimeInForce where
  | day | gtc | ioc | fok | gtd | opg | cls
deriving DecidableEq

inductive AssetType where
  | equity | future | option | forex | crypto | cash | bond | index
deriving DecidableEq

end AlphaLab
