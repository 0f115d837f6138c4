import DiskDiff.Stream
import DiskDiff.Time
import DiskDiff.Element
import DiskDiff.Codec
import DiskDiff.Path
import DiskDiff.Order
import DiskDiff.Lister
import DiskDiff.Accept
import DiskDiff.Reorder
import DiskDiff.Contents
import DiskDiff.Main
