/-!
How many calls a session has running, counted in one number. A caller first claims the session,
which works only while nothing runs, and each call to the stone counts itself on top.
-/

namespace ImageBrowser.Occupancy

def claim (depth : Int) : Bool × Int := if 0 < depth then (false, depth) else (true, depth + 1)

def enter (depth : Int) : Int := depth + 1

def leave (depth : Int) : Int := depth - 1

def isBusy (depth : Int) : Bool := 0 < depth

end ImageBrowser.Occupancy
